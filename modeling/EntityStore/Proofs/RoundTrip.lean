import Mathlib
import EntityStore.Proofs.Buffers
import EntityStore.Proofs.Recorded
import EntityStore.Proofs.Retrieval

/-!
A commit and a search after it. Trees of entities that were inserted, in any number and of any
depth, are found again by their keys, one by one and whole, with nothing among them that was not
inserted below them.
-/

namespace EntityStore

open Fallible

namespace UnitOfWork

variable {u : UnitOfWork} {Γ : Declarations} {roots : List (EntityType × Entity)} {w w' : World}
  {T : EntityType} {t : Entity} {s : DataStore} {k : Int64}

/-- A node is found by its key, with all that hangs below it. -/
lemma Grown.findSingle_ok (hu : u.Relational Γ) (h : u.Grown Γ roots w w')
    (ht : (T, t) ∈ u.forest roots) (hs : u.store? T.name = some s)
    (hk : t.scalars.integer? s.adapter.schema.key = some k) :
    u.findSingle T (.binary .eq (.field s.adapter.schema.key) (.constant (.int k))) w' =
      (.ok t, w') := by
  obtain ⟨hmem, hname⟩ := store?_eq_some hs
  have hf : (Γ.of s.type.name).HasInteger s.adapter.schema.key := hname ▸ hu.key hs
  have hfind := hu.find_integer h.grew.wellKeyed hmem hf k
  rw [h.filter_key ht hs hk] at hfind
  have hsingle : s.findSingle (.binary .eq (.field s.adapter.schema.key) (.constant (.int k))) w' =
      (.ok (T.bare t), w') := bind_of_ok hfind
  have hdepth : (u.nodes T t).length ≤ w'.depth := by
    have hlen := (Grown.nodes_sublist_forest ht).length_le
    have hsize := h.grew.size
    have := w'.size_lt_depth
    dsimp only at hlen
    omega
  have hhydrate : u.hydrate w'.depth T [T.bare t] w' = (.ok [t], w') := by
    have hmem : ∀ x ∈ [t], (T, x) ∈ u.forest roots := by simpa using ht
    have hlen : ∀ x ∈ [t], (u.nodes T x).length ≤ w'.depth := by simpa using hdepth
    exact h.hydrate_ok hu w'.depth hmem hlen
  have hstore : Search.ofStep (Fallible.ofExcept (u.store T)) w' = (.ok s, w') := by
    rw [store, hs]
    rfl
  have hfound : Search.ofStep (s.findSingle
      (.binary .eq (.field s.adapter.schema.key) (.constant (.int k)))) w' =
        (.ok (T.bare t), w') := by
    rw [Search.ofStep, adapt_apply, hsingle]
    rfl
  rw [findSingle, bind_of_ok (get_apply w'), findSingleWithin, bind_of_ok hstore, bind_of_ok hfound,
    bind_of_ok hhydrate]
  rfl

/-! ### The round trip -/

/-- The trees that a commit has recorded are settled, and the tables have grown by them. -/
lemma Relational.grown_recorded (hu : u.Relational Γ) (hsound : u.Sound w)
    (ha : ∀ s ∈ u.stores, ∀ q ∈ s.pending, u.Anchored w none s.type q.entity) {bs : List Batch}
    (h : List.Forall₂ (u.RecordedAll Γ) u.batches bs)
    (hgrew : u.Grew Γ (u.forest (bs.flatMap Batch.trees)) w w') :
    u.Grown Γ (bs.flatMap Batch.trees) w w' := by
  have htree : ∀ x ∈ bs.flatMap Batch.trees,
      x.1 = Γ.type x.1.name ∧ Γ.Has x.1.name x.2 ∧ u.Settled w none x.1 x.2 := by
    intro x hx
    obtain ⟨b', hb', hx⟩ := List.mem_flatMap.mp hx
    obtain ⟨q', hq', rfl⟩ := List.mem_map.mp hx
    obtain ⟨b, hb, hrec⟩ := exists_mem_of_forall₂ h hb'
    obtain ⟨s, hs, rfl⟩ := List.mem_map.mp hb
    obtain ⟨q, hq, hq'⟩ := exists_mem_of_forall₂ hrec.pending hq'
    have hs := List.mem_of_mem_filter hs
    rw [hrec.type]
    exact ⟨(hu.declared.stores s hs).adapter.type, hq'.has,
      hq'.inserted.settled hu hq'.has (ha s hs q hq)⟩
  exact ⟨hgrew, hsound, fun x hx => (htree x hx).1, fun x hx => (htree x hx).2.1,
    fun x hx => (htree x hx).2.2⟩

/-- **Inserted trees are found again.** After a commit of inserts that goes through, what it reports
as inserted are the buffered trees in order, with keys throughout and in every child the key of its
parent; and a search by the key of one gives that tree and changes nothing. -/
theorem commit_round_trips (hu : u.Relational Γ) (hi : u.InsertsOnly) (hw : u.WellKeyed Γ w)
    (hsound : u.Sound w)
    (ha : ∀ s ∈ u.stores, ∀ q ∈ s.pending, u.Anchored w none s.type q.entity) {c : Committed}
    (h : u.commit.1 w = (.ok c, w')) :
    ∀ s ∈ u.stores,
      List.Forall₂ (u.Inserted s.type) (s.pending.map Pending.entity) (c.insertedOf s.type) ∧
      ∀ t ∈ c.insertedOf s.type, ∃ k, t.scalars.integer? s.adapter.schema.key = some k ∧
        u.commit.2.findSingle s.type
          (.binary .eq (.field s.adapter.schema.key) (.constant (.int k))) w' = (.ok t, w') := by
  obtain ⟨bs, hrec, hc, hgrew⟩ := hu.commit_recorded hi hw h
  have hgrown := hu.grown_recorded hsound ha hrec hgrew
  intro s hs
  obtain ⟨qs, hqs, hinserted, hroots⟩ := hu.insertedOf_eq hrec hc hs
  rw [hinserted]
  refine ⟨?_, fun t ht => ?_⟩
  · rw [List.forall₂_map_left_iff, List.forall₂_map_right_iff]
    exact hqs.imp fun _ _ hq => hq.inserted
  · obtain ⟨q, hq, rfl⟩ := List.mem_map.mp ht
    have hmem : (s.type, q.entity) ∈ u.forest (bs.flatMap Batch.trees) :=
      List.mem_flatMap.mpr ⟨_, hroots q hq, mem_nodes_self _ _⟩
    obtain ⟨s', k, hs', hk, -⟩ := hgrown.key_node hmem
    obtain rfl : s = s' := Option.some.inj ((hu.store?_eq hs).symm.trans hs')
    refine ⟨k, hk, ?_⟩
    have hclear : u.commit.2.findSingle = u.findSingle := findSingle_clear u
    rw [hclear]
    exact hgrown.findSingle_ok hu hmem (hu.store?_eq hs) hk

end UnitOfWork

/-! ### Folders in folders -/

namespace Archive

def folderType : Declaration where
  name := "Folder"
  fields := [("folderId", .int32), ("parentId", .optional .int32), ("name", .text)]
  navigations := [⟨"subfolders", "Folder"⟩, ⟨"documents", "Document"⟩]

def documentType : Declaration where
  name := "Document"
  fields := [("documentId", .int64), ("folderId", .int64), ("title", .text)]

def types : Declarations := .ofList [folderType, documentType]

def subfolders : Relation :=
  ⟨folderType.type, "subfolders", folderType.type, ⟨"folderId", "parentId"⟩⟩

def documents : Relation :=
  ⟨folderType.type, "documents", documentType.type, ⟨"folderId", "folderId"⟩⟩

def folderAdapter : Adapter where
  type := folderType.type
  schema := ⟨"Folder", [⟨"folderId", some ⟨.integer, false⟩, .key true⟩,
    ⟨"parentId", some ⟨.integer, true⟩, .scalar⟩, ⟨"name", some ⟨.text, false⟩, .scalar⟩,
    ⟨"subfolders", none, .navigation⟩, ⟨"documents", none, .navigation⟩], "folderId", true⟩
  storage := .memory ⟨"folders", some "archive"⟩

def documentAdapter : Adapter where
  type := documentType.type
  schema := ⟨"Document", [⟨"documentId", some ⟨.integer, false⟩, .key true⟩,
    ⟨"folderId", some ⟨.integer, false⟩, .scalar⟩, ⟨"title", some ⟨.text, false⟩, .scalar⟩],
    "documentId", true⟩
  storage := .memory ⟨"documents", some "archive"⟩

def folder (id : Int32) (parent : Option Int32) (name : String)
    (subfolders documents : List Entity) : Entity where
  scalars := [("folderId", FieldKind.int32.toValue id),
    ("parentId", (FieldKind.optional .int32).toValue parent), ("name", .text name)]
  children := [("subfolders", subfolders), ("documents", documents)]

def document (id folder : Int64) (title : String) : Entity where
  scalars := [("documentId", .int id), ("folderId", .int folder), ("title", .text title)]
  children := []

/-- Folders below one that is stored, and a document for it. -/
def music : Entity :=
  folder 0 (some 1) "music"
    [folder 0 none "jazz" [] [document 0 0 "Misterioso", document 0 0 "Naima"],
      folder 0 none "rock" [folder 0 none "live" [] []] []] [document 0 0 "Index"]

def archive : UnitOfWork where
  stores := [⟨documentAdapter, [⟨.insert, document 0 7 "Letter"⟩]⟩,
    ⟨folderAdapter, [⟨.insert, music⟩, ⟨.insert, folder 3 none "empty" [] []⟩]⟩]
  relations := [subfolders, documents]

/-- A folder in another, with a document. -/
def shelves : World where
  tables := [("folders", [folder 1 none "all" [] [], folder 7 (some 1) "letters" [] []]),
    ("documents", [document (-4) 7 "Reply"])]
  backends := [(.memory "archive", .journal none)]

lemma folder_fits (id : Int32) (parent : Option Int32) (name : String) (cs ds : List Entity) :
    folderType.Fits (folder id parent name cs ds).scalars :=
  Declaration.fits_of_forall₂
    (.cons ⟨rfl, id, rfl⟩ (.cons ⟨rfl, parent, rfl⟩ (.cons ⟨rfl, name, rfl⟩ .nil)))

lemma document_fits (id folder : Int64) (title : String) :
    documentType.Fits (document id folder title).scalars :=
  Declaration.fits_of_forall₂
    (.cons ⟨rfl, id, rfl⟩ (.cons ⟨rfl, folder, rfl⟩ (.cons ⟨rfl, title, rfl⟩ .nil)))

lemma document_has (id folder : Int64) (title : String) :
    types.Has "Document" (document id folder title) :=
  ⟨document_fits id folder title, rfl, fun _ hn => absurd hn List.not_mem_nil⟩

lemma folder_has {id : Int32} {parent : Option Int32} {name : String} {cs ds : List Entity}
    (hcs : ∀ c ∈ cs, types.Has "Folder" c) (hds : ∀ c ∈ ds, types.Has "Document" c) :
    types.Has "Folder" (folder id parent name cs ds) := by
  refine ⟨folder_fits id parent name cs ds, rfl, fun n hn c hc => ?_⟩
  have hn : n ∈ folderType.navigations := hn
  rcases List.mem_pair.mp hn with rfl | rfl
  · exact hcs c hc
  · exact hds c hc

/-- A document in the folder it was put in refers to no other. -/
lemma document_anchored {w : World} (id folder : Int64) (title : String) :
    archive.Anchored w (some "folderId") documentType.type (document id folder title) := by
  refine .mk (fun r hr hname hne => ?_) fun r hr c hc => ?_
  · rcases List.mem_pair.mp hr with rfl | rfl
    · exact absurd hname (by decide)
    · exact absurd rfl hne
  · exact absurd hc List.not_mem_nil

lemma stores_folders : archive.Stores shelves "Folder" 1 ∧ archive.Stores shelves "Folder" 7 :=
  ⟨⟨_, rfl, List.mem_cons_self⟩, ⟨_, rfl, List.mem_cons_of_mem _ List.mem_cons_self⟩⟩

/-- A folder refers to the one it was put in, or to none, or to one that is stored. -/
lemma folder_anchored {own : Option String} {id : Int32} {parent : Option Int32} {name : String}
    {cs ds : List Entity} (hown : own = some "parentId" ∨ parent = none ∨ parent = some 1)
    (hcs : ∀ c ∈ cs, archive.Anchored shelves (some "parentId") folderType.type c)
    (hds : ∀ c ∈ ds, archive.Anchored shelves (some "folderId") documentType.type c) :
    archive.Anchored shelves own folderType.type (folder id parent name cs ds) := by
  refine .mk (fun r hr hname hne j hj => ?_) fun r hr c hc => ?_
  · rcases List.mem_pair.mp hr with rfl | rfl
    · rcases hown with rfl | rfl | rfl
      · exact absurd rfl hne
      · cases hj
      · obtain rfl : 1 = j := Option.some.inj hj
        exact stores_folders.1
    · exact absurd hname (by decide)
  · rcases List.mem_pair.mp (List.mem_of_mem_filter hr) with rfl | rfl
    · exact hcs c hc
    · exact hds c hc

lemma letter_anchored :
    archive.Anchored shelves none documentType.type (document 0 7 "Letter") := by
  refine .mk (fun r hr hname hne j hj => ?_) fun r hr c hc => ?_
  · rcases List.mem_pair.mp hr with rfl | rfl
    · exact absurd hname (by decide)
    · obtain rfl : 7 = j := Option.some.inj hj
      exact stores_folders.2
  · exact absurd hc List.not_mem_nil

lemma music_anchored : archive.Anchored shelves none folderType.type music := by
  refine folder_anchored (.inr (.inr rfl)) (fun c hc => ?_) fun c hc => ?_
  · rcases List.mem_pair.mp hc with rfl | rfl
    · refine folder_anchored (.inl rfl) (by simp) fun c hc => ?_
      rcases List.mem_pair.mp hc with rfl | rfl <;> exact document_anchored _ _ _
    · refine folder_anchored (.inl rfl) (fun c hc => ?_) (by simp)
      rw [List.mem_singleton.mp hc]
      exact folder_anchored (.inl rfl) (by simp) (by simp)
  · rw [List.mem_singleton.mp hc]
    exact document_anchored _ _ _

lemma music_has : types.Has "Folder" music := by
  refine folder_has (fun c hc => ?_) fun c hc => ?_
  · rcases List.mem_pair.mp hc with rfl | rfl
    · refine folder_has (by simp) fun c hc => ?_
      rcases List.mem_pair.mp hc with rfl | rfl <;> exact document_has _ _ _
    · refine folder_has (fun c hc => ?_) (by simp)
      rw [List.mem_singleton.mp hc]
      exact folder_has (by simp) (by simp)
  · rw [List.mem_singleton.mp hc]
    exact document_has _ _ _

lemma folderAdapter_generates : folderAdapter.Generates types ⟨"folders", some "archive"⟩ where
  declared := ⟨rfl, some "folderId", none, rfl⟩
  storage := rfl
  generated := rfl
  key := ⟨.int32, rfl, rfl⟩

lemma documentAdapter_generates :
    documentAdapter.Generates types ⟨"documents", some "archive"⟩ where
  declared := ⟨rfl, some "documentId", none, rfl⟩
  storage := rfl
  generated := rfl
  key := ⟨.int64, rfl, rfl⟩

lemma archive_relational : archive.Relational types where
  declared := by
    refine ⟨fun s hs => ?_, fun r hr => ?_⟩
    · rcases List.mem_pair.mp hs with rfl | rfl
      · refine ⟨documentAdapter_generates.declared, fun q hq => ?_⟩
        rw [List.mem_singleton.mp hq]
        exact document_has _ _ _
      · refine ⟨folderAdapter_generates.declared, fun q hq => ?_⟩
        rcases List.mem_pair.mp hq with rfl | rfl
        · exact music_has
        · exact folder_has (by simp) (by simp)
    · rcases List.mem_pair.mp hr with rfl | rfl
      · exact ⟨rfl, rfl, List.mem_cons_self⟩
      · exact ⟨rfl, rfl, List.mem_cons_of_mem _ List.mem_cons_self⟩
  names := by decide
  tables := by decide
  generates s hs := by
    rcases List.mem_pair.mp hs with rfl | rfl
    · exact ⟨_, documentAdapter_generates⟩
    · exact ⟨_, folderAdapter_generates⟩
  mapped s hs n hn := by
    rcases List.mem_pair.mp hs with rfl | rfl
    · exact absurd hn List.not_mem_nil
    · have hn : n ∈ folderType.navigations := hn
      rcases List.mem_pair.mp hn with rfl | rfl
      · exact ⟨subfolders, List.mem_cons_self, rfl, rfl⟩
      · exact ⟨documents, List.mem_cons_of_mem _ List.mem_cons_self, rfl, rfl⟩
  once := by simp [UnitOfWork.MapsOnce, archive, subfolders, documents]
  parents r hr := by
    rcases List.mem_pair.mp hr with rfl | rfl <;> exact ⟨_, rfl, rfl⟩
  children r hr := by
    rcases List.mem_pair.mp hr with rfl | rfl <;> exact ⟨_, rfl, by decide⟩
  integers r hr := by
    rcases List.mem_pair.mp hr with rfl | rfl
    · exact ⟨.optional .int32, rfl, rfl⟩
    · exact ⟨.int64, rfl, rfl⟩
  fields := by decide

lemma shelves_wellKeyed : archive.WellKeyed types shelves := by
  intro s hs
  rcases List.mem_pair.mp hs with rfl | rfl
  · refine ⟨fun row hrow => ?_, by decide⟩
    rw [List.mem_singleton.mp hrow]
    exact document_fits _ _ _
  · refine ⟨fun row hrow => ?_, by decide⟩
    rcases List.mem_pair.mp hrow with rfl | rfl <;> exact folder_fits _ _ _ _ _

lemma shelves_sound : archive.Sound shelves := by
  intro r hr s hs row hrow j hj
  rcases List.mem_pair.mp hr with rfl | rfl
  · cases hs
    rcases List.mem_pair.mp hrow with rfl | rfl
    · cases hj
    · obtain rfl : 1 = j := Option.some.inj hj
      exact stores_folders.1
  · cases hs
    obtain rfl := List.mem_singleton.mp hrow
    obtain rfl : 7 = j := Option.some.inj hj
    exact stores_folders.2

/-- The folders and documents of the tree, as they were put on the shelves. -/
def musicInserted : Entity :=
  folder 8 (some 1) "music"
    [folder 9 (some 8) "jazz" [] [document 2 9 "Misterioso", document 3 9 "Naima"],
      folder 10 (some 8) "rock" [folder 11 (some 10) "live" [] []] []] [document 4 8 "Index"]

lemma archive_inserted :
    (archive.commit.1 shelves).1.toOption.map (fun c => c.insertedOf folderType.type) =
      some [musicInserted, folder 12 none "empty" [] []] := by
  cbv

theorem music_found : ∃ c w', archive.commit.1 shelves = (.ok c, w') ∧
    c.insertedOf folderType.type = [musicInserted, folder 12 none "empty" [] []] ∧
    archive.commit.2.findSingle folderType.type
      (.binary .eq (.field "folderId") (.constant (.int 8))) w' = (.ok musicInserted, w') := by
  obtain ⟨c, w', h, hinserted⟩ : ∃ c w', archive.commit.1 shelves = (.ok c, w') ∧
      c.insertedOf folderType.type = [musicInserted, folder 12 none "empty" [] []] := by
    have hinserted := archive_inserted
    rcases hrun : archive.commit.1 shelves with ⟨err | c, w'⟩ <;> rw [hrun] at hinserted
    · cases hinserted
    · exact ⟨c, w', rfl, Option.some.inj hinserted⟩
  have hops : archive.InsertsOnly := by
    intro s hs q hq
    rcases List.mem_pair.mp hs with rfl | rfl
    · rw [List.mem_singleton.mp hq]
    · rcases List.mem_pair.mp hq with rfl | rfl <;> rfl
  have hanchored : ∀ s ∈ archive.stores, ∀ q ∈ s.pending,
      archive.Anchored shelves none s.type q.entity := by
    intro s hs q hq
    rcases List.mem_pair.mp hs with rfl | rfl
    · rw [List.mem_singleton.mp hq]
      exact letter_anchored
    · rcases List.mem_pair.mp hq with rfl | rfl
      · exact music_anchored
      · exact folder_anchored (.inr (.inl rfl)) (by simp) (by simp)
  have hfound := (UnitOfWork.commit_round_trips archive_relational hops shelves_wellKeyed
    shelves_sound hanchored h _ (List.mem_cons_of_mem _ List.mem_cons_self)).2 musicInserted
    (hinserted ▸ List.mem_cons_self)
  obtain ⟨k, hk, hfind⟩ := hfound
  obtain rfl : 8 = k := Option.some.inj hk
  exact ⟨c, w', h, hinserted, hfind⟩

end Archive

end EntityStore
