import PathPolicy.Proofs.Outcomes
import PathPolicy.Proofs.Resemblance
import PathPolicy.Proofs.SelfTest

/-!
# What a load leaves behind

Where the kernel takes policies, a load writes the files of its plan, and the kernel gives account
of the policy that was loaded, if one was (`Loader.Course.exists_tries`, `Loader.Course.has`). Other
files are not written, no image is, and no directory has other names than before, but for those of
the kernel (`World.Deposits`). So the world after a load looks to the loader like the one before, as
long as nothing that the loader reads is among the files that it writes
(`Loader.Suits.resembles`).
-/

namespace PathPolicy

open Files (Path Place Tree)

/-! ## Files that are written to the kernel -/

namespace World

variable {w w₁ w₂ : World} {refused : Files.Refusals} {ws : List (Path × Bytes)}

/-- Files of the kernel were written, and only the directories with these files show it. -/
structure Deposits (w w' : World) : Prop extends Writes loadedFiles w w' where
  children : ∀ d, (∀ e ∈ loadedFiles, d ≠ w.kernelPlace ++ [e.1]) →
    w'.tree.children d = w.tree.children d

theorem Deposits.trans (h : w.Deposits w₁) (h' : w₁.Deposits w₂) : w.Deposits w₂ where
  toWrites := h.toWrites.trans h'.toWrites
  children d hd := (h'.children d fun e he => by rw [h.kernelPlace]; exact hd e he).trans
    (h.children d hd)

theorem dropLast_fileOf (w : World) (submodule file : String) :
    (w.fileOf submodule file).dropLast = w.kernelPlace ++ [submodule] := by
  rw [fileOf_eq_concat, List.dropLast_concat]

/-- No file is lost. -/
theorem Deposits.isAside {path : Path} (h : w.Deposits w₁) (hw : w.tree.IsStill)
    (hpath : w.IsAside path) : w₁.IsAside path := by
  intro e he hpassed
  rw [h.fileOf] at hpassed ⊢
  rw [h.workingPlace] at hpassed
  rcases h.nodes (w.fileOf e.1 e.2) with hsame | hwrote | ⟨first, later, hchanging⟩
  · rw [hsame]
    exact hpath e he hpassed
  · obtain ⟨c, hget, -⟩ := hwrote.content
    simp [hget]
  · exact absurd hchanging (hw _ _ _)

theorem Deposits.of_tree (h : w.Deposits w₁) (hsame : w.SamePlaces w₂)
    (htree : w₂.tree = w₁.tree) : w.Deposits w₂ where
  toSamePlaces := hsame
  nodes q := by
    rw [htree]
    exact (h.nodes q).imp_right (.imp_left fun ⟨hfile, hdirectory, hcontent⟩ =>
      ⟨hfile, hdirectory, htree ▸ hcontent⟩)
  children d hd := by
    rw [htree]
    exact h.children d hd

theorem Tries.deposits (h : Tries refused ws w w₁) (hws : ∀ e ∈ ws, e.2.head? ≠ some 0x7f ∧
    ∃ f ∈ loadedFiles, Tree.placeOf w.workingPlace e.1 = w.fileOf f.1 f.2) : w.Deposits w₁ where
  toSamePlaces := h.toSamePlaces
  nodes q := by
    rw [h.tree]
    refine (Tree.get?_writeAll_cases _ _ _ q).imp_right fun ⟨e, he, hq, hdir, hget⟩ => .inl ?_
    obtain ⟨hhead, f, hf, hplace⟩ := hws e (List.mem_filter.1 he).1
    exact ⟨⟨f, hf, hq.trans hplace⟩, fun h => absurd h hdir, e.2, h.tree ▸ hget, hhead⟩
  children d hd := by
    rw [h.tree]
    refine Tree.children_writeAll fun e he hdrop => ?_
    obtain ⟨-, f, hf, hplace⟩ := hws e (List.mem_filter.1 he).1
    rw [hplace, dropLast_fileOf] at hdrop
    exact hd f hf hdrop.symm

theorem deposits_react (hw : w.behaviour = .loading) {blob : Bytes}
    (hblob : blob.head? ≠ some 0x7f) (place : Place) : w.Deposits (w.react place blob) where
  toWrites := writes_react hw hblob
  children d hd := by
    have hdrop : ∀ file, (w.fileOf Protection.name file).dropLast ≠ d := by
      intro file heq
      exact hd (Protection.name, Kernel.loadFile) (by decide) (by rw [← heq, dropLast_fileOf])
    rcases react_cases hw place blob with hsame | ⟨digest, -, -, hadopt⟩
    · rw [hsame]
    · rw [hadopt]
      exact (Tree.children_put (hdrop _) _).trans (Tree.children_put (hdrop _) _)

theorem Has.of_tree {p : Policy} (h : w.Has p) (hsame : w.SamePlaces w₁)
    (htree : w₁.tree = w.tree) : w₁.Has p := by
  refine h.keeps fun file _ content hheld => ?_
  rw [held, htree, hsame.fileOf]
  exact hheld

theorem Tries.has {p : Policy} (h : Tries refused ws w w₁) (has : w.Has p)
    (hne : ∀ e ∈ ws, ∀ file ∈ account,
      w.fileOf Protection.name file ≠ Tree.placeOf w.workingPlace e.1) : w₁.Has p := by
  refine has.keeps fun file hfile content hheld => ?_
  unfold held
  rw [h.toSamePlaces.fileOf, h.get?_of_ne fun e he _ => hne e he file hfile]
  exact hheld

end World

namespace Loader

/-! ## The course of a load -/

section Course

variable {l : Loader} {w w' : World} {refused : Files.Refusals} {force : Bool} {options : Options}

/-- Off the account, a load leaves what it would leave if the kernel did nothing. -/
theorem Course.exists_tries (hk : l.kernel.Reaches w) (h : l.Course w refused force options w') :
    ∃ v, World.Tries refused (l.writes w force options) w v ∧ ∀ q,
      (∀ file ∈ World.account, q ≠ w.fileOf Protection.name file) →
        w'.tree.get? q = v.tree.get? q := by
  have htries := h.tries
  obtain ⟨w₁, w₂, hearly, hinstalls, hlate⟩ := h
  cases hinstalls with
  | nothing hfate hw => exact ⟨w', htries (.inr hfate), fun _ _ => rfl⟩
  | @load sm p w₃ hps hfate hw hsame htree =>
    obtain ⟨v, hv⟩ := World.exists_tries refused
      (l.kernel.settings (options.late (l.present w) ++ options.locks)) w₃
    have hwritten := hearly.trans hw
    refine ⟨v, l.writes_eq w force options ▸ hwritten.trans hv, fun q hq => ?_⟩
    rw [hlate.tree, hv.tree, hsame.workingPlace]
    refine Tree.get?_writeAll_congr hsame.sameDirectories ?_ _ _
    rw [htree]
    refine World.get?_react (hwritten.behaviour.trans hk.behaviour) (fun file hfile => ?_) _ _
    rw [hwritten.fileOf]
    exact hq file hfile

/-- A switch that a load sets holds its value, if it can be written. -/
theorem Course.get?_of_switch (hk : l.kernel.Reaches w)
    (h : l.Course w refused force options w') {s : (String × String) × Bool}
    (hs : s ∈ options.configured (l.present w) ++ options.locks)
    (hcan : w.canWrite refused (l.kernel.path s.1.1 s.1.2) = true) :
    w'.tree.get? (l.kernel.fileIn w s.1.1 s.1.2) = some (.file (Kernel.switchContent s.2)) := by
  obtain ⟨v, hv, hget⟩ := h.exists_tries hk
  rw [hget, Loader.get?_of_switch hv hs, if_pos hcan]
  intro file hfile
  rw [← hk.fileIn_eq]
  exact ((Options.isFree hs).fileIn_ne l.kernel w (List.mem_cons_of_mem _ hfile)).symm

/-- If a policy is loaded, and the kernel takes it, it is the one that the kernel has. -/
theorem Course.has (hk : l.kernel.Reaches w) (h : l.Course w refused force options w')
    {sm : Submodule} {p : Policy} (hp : (sm, p) ∈ l.policies w)
    (hfate : l.fate w refused force sm p = .loaded) (htaken : p.IsTaken) : w'.Has p := by
  obtain ⟨w₁, w₂, hearly, hinstalls, hlate⟩ := h
  cases hinstalls with
  | nothing hnone hw => exact absurd hfate (hnone (sm, p) hp)
  | @load sm' p' w₃ hps hfate' hw hsame htree =>
    rw [hps, List.mem_singleton] at hp
    obtain ⟨rfl, rfl⟩ := Prod.mk.inj hp
    cases sm
    have hk₃ : l.kernel.Reaches w₃ := hk.same (hearly.trans hw).toSamePlaces
    have hk₂ : l.kernel.Reaches w₂ := hk₃.same hsame.toSamePlaces
    have hloaded : w₂.Has p := by
      rw [hk₃.fileIn_eq] at htree
      have hreact : w₃.Writes World.loadedFiles
          (w₃.react (w₃.fileOf Protection.name Kernel.loadFile) p.binary) :=
        World.writes_react hk₃.behaviour htaken.head?_ne
      exact (World.has_react hk₃.behaviour htaken).of_tree
        (hreact.toSamePlaces.symm.trans hsame.toSamePlaces) htree
    refine hlate.has hloaded fun e he file hfile => ?_
    obtain ⟨s, hs, rfl⟩ := l.kernel.mem_settings.1 he
    have hfree := (List.mem_append.1 hs).elim isFree_of_late isFree_of_locks
    rw [hfree.placeOf_path, ← hk₂.fileIn_eq]
    exact hfree.fileIn_ne l.kernel w₂ (List.mem_cons_of_mem _ hfile)

theorem deposits_of_settings (hk : l.kernel.Reaches w)
    {switches : List ((String × String) × Bool)} (hs : ∀ s ∈ switches, s.1 ∈ Kernel.switchFiles)
    (h : World.Tries refused (l.kernel.settings switches) w w') : w.Deposits w' := by
  refine h.deposits fun e he => ?_
  obtain ⟨s, hmem, rfl⟩ := l.kernel.mem_settings.1 he
  have hswitch := hs s hmem
  refine ⟨Kernel.head?_switchContent s.2, s.1, List.mem_append_left _ hswitch, ?_⟩
  rw [(Kernel.isFree_of_switch _ hswitch).placeOf_path, hk.fileIn_eq]

/-- A load that does not lock writes nothing but the switches, the policy and the account. -/
theorem Course.deposits (hk : l.kernel.Reaches w) (h : l.Course w refused force options w')
    (hlocked : options.main.locked = false) (htaken : ∀ d ∈ l.policies w, d.2.IsTaken) :
    w.Deposits w' := by
  have hswitches : ∀ s ∈ options.early (l.present w) ++ options.late (l.present w),
      s.1 ∈ Kernel.switchFiles := fun s hs => (l.sublist_configured w options).subset
    (List.mem_map_of_mem ((options.early_late_perm (l.present w)).subset hs))
  obtain ⟨w₁, w₂, hearly, hinstalls, hlate⟩ := h
  rw [Options.locks_eq_nil hlocked, List.append_nil] at hlate
  have hbefore := deposits_of_settings hk (fun s hs => hswitches s (List.mem_append_left _ hs))
    hearly
  have hk₁ := hk.same hbefore.toSamePlaces
  -- What is written to load a policy starts as a policy does.
  have hloads : ∀ e ∈ (l.policies w).flatMap fun d => l.loads w force d.1 d.2,
      e.2.head? ≠ some 0x7f ∧ ∃ f ∈ World.loadedFiles,
        Tree.placeOf w₁.workingPlace e.1 = w₁.fileOf f.1 f.2 := by
    intro e he
    obtain ⟨d, hd, he⟩ := List.mem_flatMap.1 he
    obtain ⟨-, rfl⟩ := mem_loads.1 he
    refine ⟨(htaken d hd).head?_ne, (d.1.name, Kernel.loadFile), ?_, ?_⟩
    · cases d.1
      decide
    · rw [placeOf_path_of_submodule l w₁ d.1 (by decide), hk₁.fileIn_eq]
  have hinstalled : w₁.Deposits w₂ := by
    cases hinstalls with
    | nothing hfate hw => exact hw.deposits hloads
    | @load sm p w₃ hps hfate hw hsame htree =>
      have hloaded : p.IsTaken := htaken (sm, p) (hps ▸ List.mem_singleton_self _)
      have hwritten := hw.deposits hloads
      have hreact := World.deposits_react (hwritten.behaviour.trans hk₁.behaviour) hloaded.head?_ne
        (l.kernel.fileIn w₃ sm.name Kernel.loadFile)
      exact hwritten.trans (hreact.of_tree hsame.toSamePlaces htree)
  have hk₂ := hk₁.same hinstalled.toSamePlaces
  exact (hbefore.trans hinstalled).trans
    (deposits_of_settings hk₂ (fun s hs => hswitches s (List.mem_append_right _ hs)) hlate)

end Course

/-! ## What is read after a load -/

/-- A world in which a loader finds again what it has read: no file changes by itself, the kernel
takes policies and gives account of them in files, and neither the configuration nor an image is
among the files that a load writes. -/
structure Suits (l : Loader) (w : World) : Prop where
  reaches : l.kernel.Reaches w
  isStill : w.tree.IsStill
  isNamed : w.tree.IsNamed
  account : w.HasAccountFiles
  aside : w.IsAside l.configDirectory
  images : l.images = .files → ∀ e ∈ World.loadedFiles, ∀ c,
    w.tree.get? (w.fileOf e.1 e.2) = some (.file c) → c.head? ≠ some 0x7f
  taken : ∀ d ∈ l.policies w, d.2.IsTaken

section Suits

variable {l : Loader} {w w' : World} {refused : Files.Refusals} {force : Bool} {options : Options}
  {sm : Submodule} {p : Policy}

theorem Suits.isCalm (h : l.Suits w) : l.IsCalm w := ⟨h.isStill, .inr ⟨h.reaches, h.account⟩⟩

theorem Suits.traits (h : l.Suits w) (hw : w.Spares w') (paths : List Path) (path : Path) :
    (l.knows w' paths path).traits? = (l.knows w paths path).traits? := by
  cases himages : l.images with
  | known inspector => simp only [knows, himages]
  | files =>
    have hback : w'.Spares w := by
      refine ⟨hw.toRefills.symm h.isStill, fun q c hget hc => ?_⟩
      rw [hw.get?_eq q ?_, hget]
      rintro e he rfl
      exact h.images himages e he c hget hc
    rcases knows_again l hw.traits (List.Subset.refl paths) path with hnone | hsame
    · rcases knows_again l hback.traits (List.Subset.refl paths) path with hnone' | hsame
      · rw [hnone, hnone']
      · exact hsame.symm
    · exact hsame

/-- After a load that does not lock, the loader finds everything as it was. -/
theorem Suits.resembles (h : l.Suits w) (hcourse : l.Course w refused force options w')
    (hlocked : options.main.locked = false) : l.Resembles w w' := by
  have hw := hcourse.deposits h.reaches hlocked h.taken
  have hspares := hw.toWrites.spares h.isStill h.account
  exact {
    toRefills := hspares.toRefills
    isStill_left := h.isStill
    reaches := h.reaches
    aside_left := h.aside
    aside := hw.isAside h.isStill h.aside
    children := fun q hq => ⟨hw.children q hq, fun name => h.isNamed.of_mem_children⟩
    traits := h.traits hspares }

/-- What the digest file holds is not written but by the kernel. -/
theorem placeOf_digest_ne {e : Path × Bytes} (he : e ∈ l.writes w force options) (sm : Submodule) :
    Tree.placeOf w.workingPlace (l.kernel.path sm.name Kernel.digestFile) ≠
      Tree.placeOf w.workingPlace e.1 := by
  rw [placeOf_path_of_submodule l w sm (by decide)]
  intro hplace
  rcases mem_writes.1 he with ⟨s, hs, rfl⟩ | ⟨sm', p, -, -, rfl⟩
  · rw [(Options.isFree hs).placeOf_path] at hplace
    cases sm
    exact (Options.isFree hs).fileIn_ne l.kernel w (by decide) hplace
  · rw [placeOf_path_of_submodule l w sm' (by decide)] at hplace
    exact absurd (Kernel.Interface.fileIn_inj.1 hplace).2 (by decide)

/-- A policy that was loaded, or need not be, is up to date after the load. -/
theorem Suits.isUpToDate (h : l.Suits w) (hcourse : l.Course w refused force options w')
    (hp : (sm, p) ∈ l.policies w) (hfate : l.fate w refused force sm p ≠ .failed) :
    l.isUpToDate w' false sm p = true := by
  cases hdone : l.fate w refused force sm p with
  | failed => exact absurd hdone hfate
  | loaded =>
    have hframe := hcourse.sameFrame h.isStill
    have has := hcourse.has h.reaches hp hdone (h.taken (sm, p) hp)
    obtain ⟨-, hcan⟩ := fate_eq_loaded.1 hdone
    cases sm
    have htakes : l.kernel.Takes w := by
      obtain ⟨-, node, hresolve, hnode⟩ := Tree.canWrite_iff.1 (Bool.and_eq_true_iff.1 hcan).2
      rw [placeOf_path_of_submodule l w .protection (by decide), h.reaches.fileIn_eq] at hresolve
      exact ⟨node, hresolve, hnode⟩
    exact isUpToDate_iff.2 ⟨rfl,
      (htakes.of_sameDirectories hframe.toSamePlaces hframe.sameDirectories).readFlag
        (h.reaches.same hframe.toSamePlaces) hframe.isStill has⟩
  | unchanged =>
    have hcurrent := fate_eq_unchanged.1 hdone
    obtain rfl := (isUpToDate_iff.1 hcurrent).1
    have hnone : ∀ d ∈ l.policies w, l.fate w refused false d.1 d.2 ≠ .loaded := by
      rintro ⟨sm', p'⟩ hp' hloaded
      cases sm
      cases sm'
      obtain rfl := Except.ok.inj ((mem_policies.1 hp).2.symm.trans (mem_policies.1 hp').2)
      rw [hdone] at hloaded
      cases hloaded
    rw [isUpToDate_of_tries h.isStill (hcourse.tries (.inr hnone))
      fun e he => placeOf_digest_ne he sm]
    exact hcurrent

end Suits

end Loader

end PathPolicy
