import PathPolicy.Image.Inspection
import PathPolicy.Proofs.Programs

/-!
# What reading and loading change

Two relations between the worlds before and after a program. Programs that only read leave the files
as they are, unless a file changes by itself (`World.Rests`). Programs that set switches or load
policies write to a few files of the kernel, and nothing that is an image (`World.Writes`); so
directories stay what they are (`World.SameFrame`), all that is read elsewhere is read again
(`World.Refills`), and no image is found that was not there before (`World.Spares`).
-/

namespace PathPolicy

open Files (Path Place Tree)

/-! ## What is no image -/

namespace Image

theorem Elf.traits?_eq_none {c : Bytes} (h : c.head? ≠ some 0x7f) : Elf.traits? c = none := by
  have hmagic : c.take 4 ≠ Elf.magic := by
    intro htake
    cases c with
    | nil => cases htake
    | cons b rest => exact h (congrArg some (List.cons.inj htake).1)
  unfold Elf.traits?
  exact if_pos (.inr hmagic)

theorem Inspection.traits?_ofBytes {c : Bytes} (h : c.head? ≠ some 0x7f) :
    (Inspection.ofBytes c).traits? = none := by
  unfold Inspection.ofBytes
  rw [Elf.traits?_eq_none h]
  rfl

end Image

theorem Kernel.head?_switchContent (value : Bool) :
    (Kernel.switchContent value).head? ≠ some 0x7f := by
  cases value <;> decide +kernel

theorem Digest.head?_line (d : Digest) : (Bytes.ofString (d.hex ++ "\n")).head? ≠ some 0x7f := by
  obtain ⟨bytes, hlength⟩ := d
  cases bytes with
  | nil => cases hlength
  | cons b rest =>
    have hdigit : ∀ n < 16,
        ∃ a, (String.utf8EncodeChar (Bytes.Hex.digit n)).head? = some a ∧ a ≠ 0x7f := by
      decide +kernel
    obtain ⟨a, hhead, ha⟩ := hdigit (b.toNat / 16) (by have := b.toNat_lt; omega)
    have hhex : Digest.hex ⟨b :: rest, hlength⟩ =
        String.ofList (Bytes.Hex.pair b ++ rest.flatMap Bytes.Hex.pair) := rfl
    rw [Bytes.ofString_eq_flatMap, hhex, String.toList_append, String.toList_ofList]
    simpa [Bytes.Hex.pair, List.head?_append, hhead] using ha

/-! ## Reading -/

namespace World

/-- The files are as they were, if none changes by itself. -/
structure Rests (w w' : World) : Prop extends SamePlaces w w' where
  tree : w.tree.IsStill → w'.tree = w.tree

instance : AllowsReading World.Rests where
  refl w := ⟨.refl w, fun _ => rfl⟩
  trans h h' := ⟨h.toSamePlaces.trans h'.toSamePlaces, fun hstill =>
    (h'.tree (h.tree hstill ▸ hstill)).trans (h.tree hstill)⟩
  same h := h.toSamePlaces
  report _ _ := ⟨⟨rfl, rfl, rfl⟩, fun _ => rfl⟩
  settle h := ⟨⟨rfl, rfl, rfl⟩, fun hstill => absurd h (hstill _ _ _)⟩

theorem Rests.keeps {w w' : World} (h : w.Rests w') (hstill : w.tree.IsStill) : w.Keeps w' := by
  intro file _ content hheld
  unfold held
  rw [h.tree hstill, h.fileOf]
  exact hheld

/-! ## Writing to the kernel -/

/-- A file of the kernel was written, and it is no image. -/
structure Wrote (files : List (String × String)) (w w' : World) (q : Place) : Prop where
  file : ∃ e ∈ files, q = w.fileOf e.1 e.2
  directory : w.tree.get? q = some .directory → ∃ f ∈ account, q = w.fileOf Protection.name f
  content : ∃ c : Bytes, w'.tree.get? q = some (.file c) ∧ c.head? ≠ some 0x7f

/-- Some of the files of the kernel were written, and nothing else has changed but files that change
by themselves. -/
structure Writes (files : List (String × String)) (w w' : World) : Prop
    extends SamePlaces w w' where
  nodes : ∀ q, w'.tree.get? q = w.tree.get? q ∨ w.Wrote files w' q ∨
    ∃ first later, w.tree.get? q = some (.changing first later)

variable {files files' : List (String × String)} {w w₁ w₂ : World}

theorem Writes.refl (w : World) : w.Writes files w := ⟨.refl w, fun _ => .inl rfl⟩

theorem Writes.trans (h : w.Writes files w₁) (h' : w₁.Writes files w₂) : w.Writes files w₂ := by
  refine ⟨h.toSamePlaces.trans h'.toSamePlaces, fun q => ?_⟩
  have hfile : (∃ e ∈ files, q = w₁.fileOf e.1 e.2) → ∃ e ∈ files, q = w.fileOf e.1 e.2 := by
    rintro ⟨e, he, rfl⟩
    exact ⟨e, he, h.toSamePlaces.fileOf _ _⟩
  rcases h.nodes q with hsame | hwrote | hchanging
  · rcases h'.nodes q with hsame' | hwrote' | ⟨first, later, hchanging'⟩
    · exact .inl (hsame'.trans hsame)
    · refine .inr (.inl ⟨hfile hwrote'.file, fun hdir => ?_, hwrote'.content⟩)
      obtain ⟨f, hf, hq⟩ := hwrote'.directory (hsame.trans hdir)
      exact ⟨f, hf, hq.trans (h.toSamePlaces.fileOf _ _)⟩
    · exact .inr (.inr ⟨first, later, hsame.symm.trans hchanging'⟩)
  · rcases h'.nodes q with hsame' | hwrote' | ⟨first, later, hchanging'⟩
    · obtain ⟨c, hget, hc⟩ := hwrote.content
      exact .inr (.inl ⟨hwrote.file, hwrote.directory, c, hsame'.trans hget, hc⟩)
    · exact .inr (.inl ⟨hwrote.file, hwrote.directory, hwrote'.content⟩)
    · obtain ⟨c, hget, -⟩ := hwrote.content
      rw [hget] at hchanging'
      cases hchanging'
  · exact .inr (.inr hchanging)

theorem Writes.mono (h : w.Writes files w₁) (hfiles : files ⊆ files') : w.Writes files' w₁ := by
  refine ⟨h.toSamePlaces, fun q => (h.nodes q).imp_right (.imp_left fun hwrote => ?_)⟩
  obtain ⟨e, he, hq⟩ := hwrote.file
  exact ⟨⟨e, hfiles he, hq⟩, hwrote.directory, hwrote.content⟩

theorem writes_putFile {e : String × String} (he : e ∈ files) {c : Bytes}
    (hc : c.head? ≠ some 0x7f) (hdir : w.tree.get? (w.fileOf e.1 e.2) = some .directory →
      ∃ f ∈ account, w.fileOf e.1 e.2 = w.fileOf Protection.name f) :
    w.Writes files (w.putFile (w.fileOf e.1 e.2) c) := by
  refine ⟨⟨rfl, rfl, rfl⟩, fun q => ?_⟩
  by_cases hq : q = w.fileOf e.1 e.2
  · subst hq
    exact .inr (.inl ⟨⟨e, he, rfl⟩, hdir, c, Tree.get?_put (by simp [fileOf]), hc⟩)
  · exact .inl (Tree.get?_put_of_ne hq)

instance : AllowsReading (World.Writes files) where
  refl := Writes.refl
  trans := Writes.trans
  same h := h.toSamePlaces
  report _ _ := ⟨⟨rfl, rfl, rfl⟩, fun _ => .inl rfl⟩
  settle := by
    intro w place first later h
    refine ⟨⟨rfl, rfl, rfl⟩, fun q => ?_⟩
    by_cases hq : q = place
    · exact .inr (.inr ⟨first, later, hq ▸ h⟩)
    · exact .inl (Tree.get?_put_of_ne hq)

/-- Where switches are set, no policy is loaded. -/
instance {k : Kernel.Interface} :
    AllowsLoading k (fun _ => False) (World.Writes Kernel.switchFiles) where
  switch _ he hnode value :=
    writes_putFile he (Kernel.head?_switchContent value) fun hdir => absurd hdir hnode
  load _ hp := hp.elim

/-- The account of the kernel is not among the switches. -/
theorem Writes.keeps (h : w.Writes Kernel.switchFiles w₁) : w.Keeps w₁ := by
  intro file hfile content hheld
  have hplace : w₁.held file = w₁.tree.get? (w.fileOf Protection.name file) :=
    congrArg w₁.tree.get? (h.toSamePlaces.fileOf _ _)
  rw [hplace]
  rcases h.nodes (w.fileOf Protection.name file) with hsame | hwrote | ⟨first, later, hchanging⟩
  · exact hsame.trans hheld
  · obtain ⟨e, he, hq⟩ := hwrote.file
    have hfree := Kernel.isFree_of_switch e he
    exact absurd hq (hfree.fileOf_ne w (List.mem_cons_of_mem _ hfile))
  · rw [held, hchanging] at hheld
    cases hheld

/-! ## Loading -/

/-- The files that are written when policies are loaded, by their directories and names. -/
def loadedFiles : List (String × String) :=
  Kernel.switchFiles ++ (Kernel.loadFile :: account).map (Protection.name, ·)

/-- The kernel does nothing, or gives account of another policy. -/
theorem react_cases (hw : w.behaviour = .loading) (place : Place) (blob : Bytes) :
    w.react place blob = w ∨ ∃ d rules, Protection.Blob.decode blob = .ok (d, rules) ∧
      w.react place blob = (w.putFile (w.fileOf Protection.name Kernel.dumpFile) blob).putFile
        (w.fileOf Protection.name Kernel.digestFile) (Bytes.ofString (d.hex ++ "\n")) := by
  unfold react
  simp only [hw]
  split
  · unfold adopt
    cases hdecode : Protection.Blob.decode blob with
    | error fault => exact .inl rfl
    | ok found => exact .inr ⟨found.1, found.2, rfl, rfl⟩
  · exact .inl rfl

/-- The kernel makes the policy the one that is loaded. -/
theorem writes_react (hw : w.behaviour = .loading) {place : Place} {blob : Bytes}
    (hblob : blob.head? ≠ some 0x7f) : w.Writes loadedFiles (w.react place blob) := by
  rcases react_cases hw place blob with hsame | ⟨d, -, -, hadopt⟩
  · rw [hsame]
    exact .refl w
  · rw [hadopt]
    have hdump : w.Writes loadedFiles
        (w.putFile (w.fileOf Protection.name Kernel.dumpFile) blob) :=
      writes_putFile (e := (Protection.name, Kernel.dumpFile)) (by decide) hblob
        fun _ => ⟨_, by decide, rfl⟩
    exact hdump.trans (writes_putFile (e := (Protection.name, Kernel.digestFile)) (by decide)
      d.head?_line fun _ => ⟨_, by decide, rfl⟩)

instance {k : Kernel.Interface} :
    AllowsLoading k (fun p => p.binary.head? ≠ some 0x7f) (World.Writes loadedFiles) where
  switch _ he hnode value := writes_putFile (List.mem_append_left _ he)
    (Kernel.head?_switchContent value) fun hdir => absurd hdir hnode
  load := by
    intro w p hw hp hnode
    have hwritten : w.Writes loadedFiles
        (w.putFile (w.fileOf Protection.name Kernel.loadFile) p.binary) :=
      writes_putFile (e := (Protection.name, Kernel.loadFile)) (by decide) hp
        fun hdir => absurd hdir hnode
    exact hwritten.trans (writes_react (w := w.putFile _ _) hw.behaviour hp)

/-- Places, directories and what the kernel does are the same, and no file changes by itself. -/
structure SameFrame (w w' : World) : Prop extends SamePlaces w w' where
  isStill : w'.tree.IsStill
  sameDirectories : w.tree.SameDirectories w'.tree

/-- At most, files that are written when policies are loaded are different. -/
structure Refills (w w' : World) : Prop extends SameFrame w w' where
  get?_eq : ∀ q, (∀ e ∈ loadedFiles, q ≠ w.fileOf e.1 e.2) → w'.tree.get? q = w.tree.get? q

/-- What loading policies leaves as it is, where no file changes by itself: the directories, every
image, and every file that is not written. -/
structure Spares (w w' : World) : Prop extends Refills w w' where
  image : ∀ q c, w'.tree.get? q = some (.file c) → c.head? = some 0x7f →
    w.tree.get? q = some (.file c)

/-- A kernel gives account in files. -/
def HasAccountFiles (w : World) : Prop := ∀ file ∈ account, w.held file ≠ some .directory

instance (w : World) : Decidable w.HasAccountFiles :=
  inferInstanceAs (Decidable (∀ file ∈ account, _))

theorem Writes.spares (h : w.Writes loadedFiles w₁) (hstill : w.tree.IsStill)
    (haccount : w.HasAccountFiles) : w.Spares w₁ where
  toSamePlaces := h.toSamePlaces
  isStill q first later hchanging := by
    rcases h.nodes q with hsame | hwrote | ⟨first', later', hchanging'⟩
    · exact hstill q first later (hsame.symm.trans hchanging)
    · obtain ⟨c, hget, -⟩ := hwrote.content
      rw [hget] at hchanging
      cases hchanging
    · exact hstill q first' later' hchanging'
  sameDirectories q := by
    rcases h.nodes q with hsame | hwrote | ⟨first, later, hchanging⟩
    · rw [hsame]
    · obtain ⟨c, hget, -⟩ := hwrote.content
      constructor
      · intro hdir
        obtain ⟨f, hf, rfl⟩ := hwrote.directory hdir
        exact absurd hdir (haccount f hf)
      · intro hdir
        rw [hget] at hdir
        cases hdir
    · exact absurd hchanging (hstill q first later)
  get?_eq q hq := by
    rcases h.nodes q with hsame | hwrote | ⟨first, later, hchanging⟩
    · exact hsame
    · obtain ⟨e, he, rfl⟩ := hwrote.file
      exact absurd rfl (hq e he)
    · exact absurd hchanging (hstill q first later)
  image q c hget hc := by
    rcases h.nodes q with hsame | hwrote | ⟨first, later, hchanging⟩
    · exact hsame.symm.trans hget
    · obtain ⟨c', hget', hc'⟩ := hwrote.content
      obtain rfl := Files.Node.file.inj (Option.some.inj (hget.symm.trans hget'))
      exact absurd hc hc'
    · exact absurd hchanging (hstill q first later)

theorem SameFrame.refl (hstill : w.tree.IsStill) : w.SameFrame w :=
  ⟨.refl w, hstill, fun _ => Iff.rfl⟩

theorem SameFrame.trans (h : w.SameFrame w₁) (h' : w₁.SameFrame w₂) : w.SameFrame w₂ where
  toSamePlaces := h.toSamePlaces.trans h'.toSamePlaces
  isStill := h'.isStill
  sameDirectories q := (h.sameDirectories q).trans (h'.sameDirectories q)

theorem SameFrame.hasAccountFiles (h : w.SameFrame w₁) (hw : w.HasAccountFiles) :
    w₁.HasAccountFiles := by
  intro file hfile hdir
  rw [held, h.fileOf] at hdir
  exact hw file hfile ((h.sameDirectories _).2 hdir)

theorem Refills.trans (h : w.Refills w₁) (h' : w₁.Refills w₂) : w.Refills w₂ where
  toSameFrame := h.toSameFrame.trans h'.toSameFrame
  get?_eq q hq := (h'.get?_eq q fun e he => by rw [h.fileOf]; exact hq e he).trans (h.get?_eq q hq)

theorem Refills.symm (h : w.Refills w₁) (hstill : w.tree.IsStill) : w₁.Refills w where
  toSamePlaces := h.toSamePlaces.symm
  isStill := hstill
  sameDirectories := h.sameDirectories.symm
  get?_eq q hq := (h.get?_eq q fun e he => by rw [← h.fileOf]; exact hq e he).symm

theorem Spares.trans (h : w.Spares w₁) (h' : w₁.Spares w₂) : w.Spares w₂ where
  toRefills := h.toRefills.trans h'.toRefills
  image q c hget hc := h.image q c (h'.image q c hget hc) hc

theorem spares_of_tree (hsame : w.SamePlaces w₁) (htree : w₁.tree = w.tree)
    (hstill : w.tree.IsStill) : w.Spares w₁ where
  toSamePlaces := hsame
  isStill := htree ▸ hstill
  sameDirectories q := by rw [htree]
  get?_eq q _ := by rw [htree]
  image q c hget _ := by rwa [htree] at hget

theorem Rests.spares (h : w.Rests w₁) (hstill : w.tree.IsStill) : w.Spares w₁ :=
  spares_of_tree h.toSamePlaces (h.tree hstill) hstill

theorem Spares.from_rests (h : w.Spares w₂) (hrests : w.Rests w₁) (hstill : w.tree.IsStill) :
    w₁.Spares w₂ := by
  have htree := hrests.tree hstill
  exact (spares_of_tree hrests.toSamePlaces.symm htree.symm (htree ▸ hstill)).trans h

end World

end PathPolicy
