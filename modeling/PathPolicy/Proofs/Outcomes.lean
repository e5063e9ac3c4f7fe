import PathPolicy.Proofs.Histories
import PathPolicy.Proofs.Planning

/-!
# What comes of a load

The files that a load writes to are all different (`Loader.pairwise_writes`), and its report names
every submodule once (`Loader.mem_report`, `Loader.nodup_report`). So a load does all that it is
asked for, or reports what it has not done (`Loader.load_all_or_reported`).
-/

namespace PathPolicy

open Files (Path Place Tree)

namespace Loader

/-! ## What a load has done -/

section Report

variable {l : Loader} {w w' : World} {refused : Files.Refusals} {force : Bool}
  {options : Options} {sm : Submodule} {p : Policy} {name : String}

theorem mem_namesOf {fates : List (Submodule × Fate)} {fate : Fate} :
    name ∈ namesOf fates fate ↔ ∃ d ∈ fates, d.2 = fate ∧ d.1.name = name := by
  simp [namesOf, and_assoc]

theorem mem_policies : (sm, p) ∈ l.policies w ↔
    sm ∈ l.present w ∧ (w.run (l.draft sm)).1 = .ok p := by
  simp only [policies, drafts, List.mem_filterMap, List.mem_map]
  constructor
  · rintro ⟨d, ⟨sm', hsm, rfl⟩, hd⟩
    obtain ⟨p', hp, heq⟩ := Option.map_eq_some_iff.1 hd
    obtain ⟨rfl, rfl⟩ := Prod.mk.inj heq
    exact ⟨hsm, toOption_eq_some.1 hp⟩
  · rintro ⟨hsm, hp⟩
    exact ⟨_, ⟨sm, hsm, rfl⟩, by rw [hp]; rfl⟩

theorem sublist_configured (l : Loader) (w : World) (options : Options) :
    ((options.configured (l.present w)).map (·.1)).Sublist Kernel.switchFiles := by
  rcases l.present_eq w with h | h <;> rw [h]
  · exact List.singleton_sublist.2 List.mem_cons_self
  · exact List.Sublist.refl _

theorem nodup_switches (l : Loader) (w : World) (options : Options) :
    ((options.configured (l.present w) ++ options.locks).map (·.1)).Nodup := by
  have hlocks : (options.locks.map (·.1)).Sublist [(Kernel.mainDirectory, "locked")] := by
    unfold Options.locks
    cases options.main.locked
    · exact List.nil_sublist _
    · exact List.Sublist.refl _
  rw [List.map_append]
  exact ((l.sublist_configured w options).append hlocks).nodup (by decide)

/-- What a load writes are the switches and the policies, in another order. -/
theorem writes_perm (l : Loader) (w : World) (force : Bool) (options : Options) :
    (l.writes w force options).Perm
      (l.kernel.settings (options.configured (l.present w) ++ options.locks) ++
        (l.policies w).flatMap fun d => l.loads w force d.1 d.2) := by
  have hswitches : (l.kernel.settings (options.early (l.present w)) ++
      l.kernel.settings (options.late (l.present w))).Perm
        (l.kernel.settings (options.configured (l.present w))) := by
    rw [← Kernel.Interface.settings_append]
    exact (options.early_late_perm (l.present w)).map _
  unfold writes plan
  rw [Kernel.Interface.settings_append, List.append_assoc, List.append_assoc]
  refine (List.perm_append_comm.append_left _).trans ?_
  rw [← List.append_assoc, ← List.append_assoc]
  exact (hswitches.append_right _).append_right _

theorem mem_loads {e : Path × Bytes} : e ∈ l.loads w force sm p ↔
    l.isUpToDate w force sm p = false ∧
      (l.kernel.path sm.name Kernel.loadFile, p.binary) = e := by
  unfold loads
  cases l.isUpToDate w force sm p <;> simp [eq_comm]

theorem mem_writes {e : Path × Bytes} : e ∈ l.writes w force options ↔
    (∃ s ∈ options.configured (l.present w) ++ options.locks,
      (l.kernel.path s.1.1 s.1.2, Kernel.switchContent s.2) = e) ∨
    ∃ sm p, (sm ∈ l.present w ∧ (w.run (l.draft sm)).1 = .ok p) ∧
      l.isUpToDate w force sm p = false ∧
        (l.kernel.path sm.name Kernel.loadFile, p.binary) = e := by
  rw [(l.writes_perm w force options).mem_iff, List.mem_append, Kernel.Interface.mem_settings,
    List.mem_flatMap]
  refine or_congr Iff.rfl ?_
  simp only [← mem_policies, mem_loads, Prod.exists]

/-- No two of the files that a load writes are at the same place. -/
theorem pairwise_writes (l : Loader) (w : World) (force : Bool) (options : Options) :
    (l.writes w force options).Pairwise fun e e' =>
      Tree.placeOf w.workingPlace e.1 ≠ Tree.placeOf w.workingPlace e'.1 := by
  refine ((l.writes_perm w force options).pairwise_iff Ne.symm).2
    (List.pairwise_append.2 ⟨?switches, ?policies, ?both⟩)
  case switches =>
    refine List.pairwise_map.2 ((List.pairwise_map.1 (l.nodup_switches w options)).imp_of_mem ?_)
    intro s s' hs hs' hne hplace
    rw [(Options.isFree hs).placeOf_path, (Options.isFree hs').placeOf_path,
      Kernel.Interface.fileIn_inj] at hplace
    exact hne (Prod.ext hplace.1 hplace.2)
  case policies =>
    have hlength := l.length_policies w
    generalize l.policies w = ps at hlength ⊢
    rcases ps with _ | ⟨d, _ | ⟨d', rest⟩⟩
    · exact .nil
    · rw [List.flatMap_singleton]
      unfold loads
      split
      · exact .nil
      · exact List.pairwise_singleton _ _
    · simp at hlength
  case both =>
    intro e he e' he' hplace
    obtain ⟨s, hs, rfl⟩ := l.kernel.mem_settings.1 he
    obtain ⟨d, -, hd⟩ := List.mem_flatMap.1 he'
    obtain ⟨-, rfl⟩ := mem_loads.1 hd
    rw [(Options.isFree hs).placeOf_path, placeOf_path_of_submodule l w _ (by decide)] at hplace
    generalize d.1 = sm at hplace
    cases sm
    exact (Options.isFree hs).fileIn_ne l.kernel w (by decide) hplace.symm

theorem isUpToDate_iff : l.isUpToDate w force sm p = true ↔ force = false ∧
    (w.run (l.kernel.readFlag sm.name Kernel.digestFile)).1 = .ok p.digest.hex := by
  unfold isUpToDate
  rw [Bool.and_eq_true, Bool.not_eq_true', decide_eq_true_iff, toOption_eq_some]

theorem fate_eq_loaded : l.fate w refused force sm p = .loaded ↔
    l.isUpToDate w force sm p = false ∧
      w.canWrite refused (l.kernel.path sm.name Kernel.loadFile) = true := by
  unfold fate
  cases l.isUpToDate w force sm p <;>
    cases w.canWrite refused (l.kernel.path sm.name Kernel.loadFile) <;> simp

theorem fate_eq_unchanged :
    l.fate w refused force sm p = .unchanged ↔ l.isUpToDate w force sm p = true := by
  unfold fate
  cases l.isUpToDate w force sm p <;>
    cases w.canWrite refused (l.kernel.path sm.name Kernel.loadFile) <;> simp

theorem mem_fates {fate : Fate} :
    name ∈ namesOf ((l.policies w).map fun d => (d.1, l.fate w refused force d.1 d.2)) fate ↔
      ∃ sm p, (sm ∈ l.present w ∧ (w.run (l.draft sm)).1 = .ok p) ∧
        l.fate w refused force sm p = fate ∧ sm.name = name := by
  rw [mem_namesOf]
  simp only [List.mem_map, Prod.exists, ← mem_policies]
  constructor
  · rintro ⟨sm, f, ⟨sm', p, hp, heq⟩, rfl, rfl⟩
    obtain ⟨rfl, rfl⟩ := Prod.mk.inj heq
    exact ⟨sm', p, hp, rfl, rfl⟩
  · rintro ⟨sm, p, hp, rfl, rfl⟩
    exact ⟨sm, _, ⟨sm, p, hp, rfl⟩, rfl, rfl⟩

theorem mem_loaded : name ∈ (l.report w refused force).loaded ↔
    ∃ sm p, (sm ∈ l.present w ∧ (w.run (l.draft sm)).1 = .ok p) ∧
      l.fate w refused force sm p = .loaded ∧ sm.name = name := by
  dsimp only [report]
  rw [mem_fates]

theorem mem_unchanged : name ∈ (l.report w refused force).unchanged ↔
    ∃ sm p, (sm ∈ l.present w ∧ (w.run (l.draft sm)).1 = .ok p) ∧
      l.fate w refused force sm p = .unchanged ∧ sm.name = name := by
  dsimp only [report]
  rw [mem_fates]

theorem exists_name_eq (hsm : sm ∈ l.present w) {fate : Fate} :
    (∃ sm' p, (sm' ∈ l.present w ∧ (w.run (l.draft sm')).1 = .ok p) ∧
        l.fate w refused force sm' p = fate ∧ sm'.name = sm.name) ↔
      ∃ p, (w.run (l.draft sm)).1 = .ok p ∧ l.fate w refused force sm p = fate := by
  constructor
  · rintro ⟨sm', p, ⟨-, hp⟩, hfate, hname⟩
    cases sm
    cases sm'
    exact ⟨p, hp, hfate⟩
  · rintro ⟨p, hp, hfate⟩
    exact ⟨sm, p, ⟨hsm, hp⟩, hfate, rfl⟩

theorem mem_failed : name ∈ (l.report w refused force).failed ↔
    (∃ sm ∈ l.present w, (∃ e, (w.run (l.draft sm)).1 = .error e) ∧ sm.name = name) ∨
      ∃ sm p, (sm ∈ l.present w ∧ (w.run (l.draft sm)).1 = .ok p) ∧
        l.fate w refused force sm p = .failed ∧ sm.name = name := by
  have hnone : ∀ {r : Except Failure Policy}, r.toOption.isNone = true ↔ ∃ e, r = .error e := by
    intro r
    cases r <;> simp [Except.toOption]
  dsimp only [report]
  rw [List.mem_append, mem_fates]
  refine or_congr ?_ Iff.rfl
  simp only [drafts, List.mem_map, List.mem_filter]
  constructor
  · rintro ⟨d, ⟨⟨sm, hsm, rfl⟩, herror⟩, rfl⟩
    exact ⟨sm, hsm, hnone.1 herror, rfl⟩
  · rintro ⟨sm, hsm, herror, rfl⟩
    exact ⟨_, ⟨⟨sm, hsm, rfl⟩, hnone.2 herror⟩, rfl⟩

theorem mem_report :
    name ∈ (l.report w refused force).loaded ++ (l.report w refused force).unchanged ++
      (l.report w refused force).failed ↔ ∃ sm ∈ l.present w, sm.name = name := by
  rw [List.mem_append, List.mem_append, mem_loaded, mem_unchanged, mem_failed]
  constructor
  · rintro ((⟨sm, p, ⟨hsm, -⟩, -, hname⟩ | ⟨sm, p, ⟨hsm, -⟩, -, hname⟩) |
      ⟨sm, hsm, -, hname⟩ | ⟨sm, p, ⟨hsm, -⟩, -, hname⟩)
    all_goals exact ⟨sm, hsm, hname⟩
  · rintro ⟨sm, hsm, hname⟩
    cases hdraft : (w.run (l.draft sm)).1 with
    | error e => exact .inr (.inl ⟨sm, hsm, ⟨e, hdraft⟩, hname⟩)
    | ok p =>
      cases hfate : l.fate w refused force sm p with
      | loaded => exact .inl (.inl ⟨sm, p, ⟨hsm, hdraft⟩, hfate, hname⟩)
      | unchanged => exact .inl (.inr ⟨sm, p, ⟨hsm, hdraft⟩, hfate, hname⟩)
      | failed => exact .inr (.inr ⟨sm, p, ⟨hsm, hdraft⟩, hfate, hname⟩)

theorem nodup_report (l : Loader) (w : World) (refused : Files.Refusals)
    (force : Bool) :
    ((l.report w refused force).loaded ++ (l.report w refused force).unchanged ++
      (l.report w refused force).failed).Nodup := by
  have hfate : ∀ (sm : Submodule) (fate : Fate), (namesOf [(sm, fate)] .loaded ++
      namesOf [(sm, fate)] .unchanged ++ namesOf [(sm, fate)] .failed).Nodup := by
    intro sm fate
    cases fate <;> exact List.pairwise_singleton _ _
  unfold report policies drafts
  rcases l.present_eq w with h | h <;> rw [h]
  · exact .nil
  · unfold Submodule.all
    rw [List.map_singleton]
    cases (w.run (l.draft .protection)).1.toOption with
    | none => exact List.pairwise_singleton _ _
    | some p => exact hfate _ _

end Report

/-! ## All or reported -/

/-- Everything but the lock was carried out, and the report says what became of the policies. A file
that cannot be written stays as it is. -/
structure Carried (l : Loader) (w : World) (refused : Files.Refusals) (force : Bool)
    (options : Options) (report : LoadReport) (w' : World) : Prop where
  /-- What is reported are the submodules that the kernel has. -/
  named : ∀ name, name ∈ report.loaded ++ report.unchanged ++ report.failed ↔
    ∃ sm ∈ l.present w, sm.name = name
  /-- No submodule is in two of the lists, or twice in one. -/
  once : (report.loaded ++ report.unchanged ++ report.failed).Nodup
  /-- Loaded is a policy that could be made, that the kernel did not have, and that could be
  written. -/
  loaded_iff : ∀ sm ∈ l.present w, sm.name ∈ report.loaded ↔ ∃ p,
    (w.run (l.draft sm)).1 = .ok p ∧
      ¬(force = false ∧
        (w.run (l.kernel.readFlag sm.name Kernel.digestFile)).1 = .ok p.digest.hex) ∧
      w.canWrite refused (l.kernel.path sm.name Kernel.loadFile) = true
  /-- Unchanged is a policy whose digest the kernel gives, if nobody insists. -/
  unchanged_iff : ∀ sm ∈ l.present w, sm.name ∈ report.unchanged ↔ ∃ p,
    (w.run (l.draft sm)).1 = .ok p ∧ force = false ∧
      (w.run (l.kernel.readFlag sm.name Kernel.digestFile)).1 = .ok p.digest.hex
  /-- A policy that cannot be made has failed. -/
  failed : ∀ sm ∈ l.present w, ∀ e, (w.run (l.draft sm)).1 = .error e → sm.name ∈ report.failed
  /-- What was loaded is what was made. -/
  written : ∀ sm ∈ l.present w, sm.name ∈ report.loaded → ∃ p, (w.run (l.draft sm)).1 = .ok p ∧
    w'.tree.get? (l.kernel.fileIn w sm.name Kernel.loadFile) = some (.file p.binary)
  /-- Where nothing was loaded, nothing was written. -/
  untouched : ∀ sm ∈ l.present w, sm.name ∉ report.loaded →
    w'.tree.get? (l.kernel.fileIn w sm.name Kernel.loadFile) =
      w.tree.get? (l.kernel.fileIn w sm.name Kernel.loadFile)
  /-- Switches have the values that the options give. -/
  switched : ∀ s ∈ options.configured (l.present w),
    w'.tree.get? (l.kernel.fileIn w s.1.1 s.1.2) =
      if w.canWrite refused (l.kernel.path s.1.1 s.1.2) then some (.file (Kernel.switchContent s.2))
      else w.tree.get? (l.kernel.fileIn w s.1.1 s.1.2)
  /-- Nothing else has changed. -/
  other : ∀ q, (∀ sm ∈ l.present w, q ≠ l.kernel.fileIn w sm.name Kernel.loadFile) →
    (∀ s ∈ options.configured (l.present w), q ≠ l.kernel.fileIn w s.1.1 s.1.2) →
    q ≠ l.kernel.fileIn w Kernel.mainDirectory "locked" → w'.tree.get? q = w.tree.get? q

section Carried

variable {l : Loader} {w w' : World} {refused : Files.Refusals} {force : Bool}
  {options : Options} {sm : Submodule} {s : (String × String) × Bool} {q : Place}

/-- The place of what a load writes is that of a switch or of a policy that was loaded. -/
theorem place_of_mem_writes {e : Path × Bytes} (he : e ∈ l.writes w force options)
    (hcan : w.canWrite refused e.1 = true) :
    (∃ s ∈ options.configured (l.present w) ++ options.locks,
      w.canWrite refused (l.kernel.path s.1.1 s.1.2) = true ∧
        Tree.placeOf w.workingPlace e.1 = l.kernel.fileIn w s.1.1 s.1.2) ∨
    ∃ sm ∈ l.present w, sm.name ∈ (l.report w refused force).loaded ∧
      Tree.placeOf w.workingPlace e.1 = l.kernel.fileIn w sm.name Kernel.loadFile := by
  rcases mem_writes.1 he with ⟨s, hs, rfl⟩ | ⟨sm, p, hp, hold, rfl⟩
  · exact .inl ⟨s, hs, hcan, (Options.isFree hs).placeOf_path⟩
  · exact .inr ⟨sm, hp.1, mem_loaded.2 ⟨sm, p, hp, fate_eq_loaded.2 ⟨hold, hcan⟩, rfl⟩,
      placeOf_path_of_submodule l w sm (by decide)⟩

theorem get?_of_switch (h : World.Tries refused (l.writes w force options) w w')
    (hs : s ∈ options.configured (l.present w) ++ options.locks) :
    w'.tree.get? (l.kernel.fileIn w s.1.1 s.1.2) =
      if w.canWrite refused (l.kernel.path s.1.1 s.1.2) then some (.file (Kernel.switchContent s.2))
      else w.tree.get? (l.kernel.fileIn w s.1.1 s.1.2) := by
  have hfree := Options.isFree hs
  cases hcan : w.canWrite refused (l.kernel.path s.1.1 s.1.2) with
  | true =>
    have hmem : (l.kernel.path s.1.1 s.1.2, Kernel.switchContent s.2) ∈
      l.writes w force options := mem_writes.2 (.inl ⟨s, hs, rfl⟩)
    have hget := h.get?_of_mem (l.pairwise_writes w force options) hmem hcan
    rw [hfree.placeOf_path] at hget
    rw [if_pos rfl, hget]
  | false =>
    rw [if_neg Bool.false_ne_true]
    refine h.get?_of_ne fun e he hcan' hplace => ?_
    rcases place_of_mem_writes he hcan' with ⟨s', -, hcan', hplace'⟩ | ⟨sm, -, -, hplace'⟩
    · obtain ⟨hsubmodule, hfile⟩ := Kernel.Interface.fileIn_inj.1 (hplace.trans hplace')
      rw [hsubmodule, hfile, hcan'] at hcan
      cases hcan
    · cases sm
      exact hfree.fileIn_ne l.kernel w (by decide) (hplace.trans hplace').symm

/-- The lock is set if the options say so, and if it can be. -/
theorem get?_of_lock (h : World.Tries refused (l.writes w force options) w w') :
    w'.tree.get? (l.kernel.fileIn w Kernel.mainDirectory "locked") =
      if options.main.locked &&
          w.canWrite refused (l.kernel.path Kernel.mainDirectory "locked") then
        some (.file (Kernel.switchContent true))
      else w.tree.get? (l.kernel.fileIn w Kernel.mainDirectory "locked") := by
  cases hlocked : options.main.locked with
  | true =>
    exact get?_of_switch h (List.mem_append_right _ (Options.mem_locks hlocked))
  | false =>
    rw [Bool.false_and, if_neg Bool.false_ne_true]
    refine h.get?_of_ne fun e he hcan hplace => ?_
    rcases place_of_mem_writes he hcan with ⟨s, hs, -, hplace'⟩ | ⟨sm, -, -, hplace'⟩
    · rw [Options.locks_eq_nil hlocked, List.append_nil] at hs
      obtain ⟨hsubmodule, hfile⟩ := Kernel.Interface.fileIn_inj.1 (hplace.trans hplace')
      have hswitch := (l.sublist_configured w options).subset (List.mem_map_of_mem hs)
      rw [show s.1 = (Kernel.mainDirectory, "locked") from Prod.ext hsubmodule.symm hfile.symm]
        at hswitch
      exact absurd hswitch (by decide)
    · have hfile := (Kernel.Interface.fileIn_inj.1 (hplace.trans hplace')).2
      exact absurd hfile (by decide)

/-- What a load has written is carried out. -/
theorem carried_of_tries (h : World.Tries refused (l.writes w force options) w w') :
    l.Carried w refused force options (l.report w refused force) w' where
  named _ := mem_report
  once := l.nodup_report w refused force
  loaded_iff sm hsm := by
    rw [mem_loaded, exists_name_eq hsm]
    refine exists_congr fun p => and_congr_right fun _ => ?_
    rw [fate_eq_loaded, ← isUpToDate_iff, Bool.not_eq_true]
  unchanged_iff sm hsm := by
    rw [mem_unchanged, exists_name_eq hsm]
    refine exists_congr fun p => and_congr_right fun _ => ?_
    rw [fate_eq_unchanged, isUpToDate_iff]
  failed sm hsm e he := mem_failed.2 (.inl ⟨sm, hsm, ⟨e, he⟩, rfl⟩)
  written sm hsm hname := by
    obtain ⟨p, hp, hfate⟩ := (exists_name_eq hsm).1 (mem_loaded.1 hname)
    obtain ⟨hold, hcan⟩ := fate_eq_loaded.1 hfate
    have hmem : (l.kernel.path sm.name Kernel.loadFile, p.binary) ∈ l.writes w force options :=
      mem_writes.2 (.inr ⟨sm, p, ⟨hsm, hp⟩, hold, rfl⟩)
    have hget := h.get?_of_mem (l.pairwise_writes w force options) hmem hcan
    rw [placeOf_path_of_submodule l w sm (by decide)] at hget
    exact ⟨p, hp, hget⟩
  untouched sm hsm hname := by
    refine h.get?_of_ne fun e he hcan hplace => ?_
    rcases place_of_mem_writes he hcan with ⟨s, hs, -, hplace'⟩ | ⟨sm', -, hname', hplace'⟩
    · cases sm
      exact (Options.isFree hs).fileIn_ne l.kernel w (by decide) (hplace.trans hplace')
    · rw [(Kernel.Interface.fileIn_inj.1 (hplace.trans hplace')).1] at hname
      exact hname hname'
  switched s hs := get?_of_switch h (List.mem_append_left _ hs)
  other q hload hswitch hlock := by
    refine h.get?_of_ne fun e he hcan hplace => ?_
    rcases place_of_mem_writes he hcan with ⟨s, hs, -, hplace'⟩ | ⟨sm, hsm, -, hplace'⟩
    · rcases List.mem_append.1 hs with hs | hs
      · exact hswitch s hs (hplace.trans hplace')
      · unfold Options.locks at hs
        split at hs
        · rw [List.mem_singleton.1 hs] at hplace'
          exact hlock (hplace.trans hplace')
        · cases hs
    · exact hload sm hsm (hplace.trans hplace')

end Carried

section Load

variable {w : World}

/-- A load does everything that it is asked for, or reports what it has not done, whichever files
cannot be written. If it fails, it has changed nothing, or has done everything but the lock, which
could not be written. -/
theorem load_all_or_reported (hw : w.IsQuiet) (l : Loader)
    (refused : Files.Refusals) (force : Bool) :
    (∀ report w', w.runRefusing refused (l.load force) = (.ok report, w') → ∃ options,
      (w.run l.options).1 = .ok options ∧ l.Carried w refused force options report w' ∧
      w'.tree.get? (l.kernel.fileIn w Kernel.mainDirectory "locked") =
        if options.main.locked then some (.file (Kernel.switchContent true))
        else w.tree.get? (l.kernel.fileIn w Kernel.mainDirectory "locked")) ∧
    ∀ e w', w.runRefusing refused (l.load force) = (.error e, w') →
      w'.tree = w.tree ∨ ∃ options report fault,
        (w.run l.options).1 = .ok options ∧ l.Carried w refused force options report w' ∧
        options.main.locked = true ∧
        e = .file .writing (l.kernel.path Kernel.mainDirectory "locked") fault ∧
        w'.tree.get? (l.kernel.fileIn w Kernel.mainDirectory "locked") =
          w.tree.get? (l.kernel.fileIn w Kernel.mainDirectory "locked") := by
  rcases l.load_cases hw refused force with
    ⟨e, w₁, hrun, htree⟩ | ⟨options, r, w₁, hoptions, hrun, htries, hr⟩
  · refine ⟨fun report w' hload => ?_, fun e' w' hload => .inl ?_⟩
    · cases hrun.symm.trans hload
    · rw [← (Prod.mk.inj (hrun.symm.trans hload)).2, htree]
  · have hcarried := carried_of_tries htries
    have hlock := get?_of_lock htries
    refine ⟨fun report w' hload => ?_, fun e w' hload => .inr ?_⟩
    · obtain ⟨rfl, rfl⟩ := Prod.mk.inj (hrun.symm.trans hload)
      obtain ⟨hcan⟩ := hr
      refine ⟨options, hoptions, hcarried, hlock.trans ?_⟩
      cases hlocked : options.main.locked with
      | true => rw [hcan hlocked, Bool.true_and]
      | false => rw [Bool.false_and]
    · obtain ⟨rfl, rfl⟩ := Prod.mk.inj (hrun.symm.trans hload)
      obtain - | ⟨hlocked, hcan, fault⟩ := hr
      rw [hcan, Bool.and_false, if_neg Bool.false_ne_true] at hlock
      exact ⟨options, _, fault, hoptions, hcarried, hlocked, rfl, hlock⟩

end Load

end Loader

/-- The kernel of the sample, left to itself, with a switch that is a directory, and options that
switch everything on and lock it. -/
def quietWorld : World where
  tree := (sampleWorld.tree.put ["sara", "wxprot", "enabled"] .directory).put ["conf", "main.toml"]
    (.file (Bytes.ofString "[sara]\nenabled = true\nlocked = true\n"))
  workingPlace := []
  kernelPlace := ["sara"]
  behaviour := .silent
  events := []

def readOnlyLock (path : Path) : Option Files.Fault :=
  if path = "/sara/main/locked" then some (.other "Permission denied (os error 13)") else none

/-- The policy is loaded, what can be switched on is switched on, and the lock is set. Where it
cannot be set, only that is missing. -/
theorem Loader.load_all_or_reported_sample : quietWorld.IsQuiet ∧
    (∃ options w', quietWorld.run (sampleLoader.load true) =
        (.ok ⟨[Protection.name], [], []⟩, w') ∧
      sampleLoader.Carried quietWorld (fun _ => none) true options ⟨[Protection.name], [], []⟩ w' ∧
      w'.tree.get? ["sara", "wxprot", "enabled"] = some .directory ∧
      w'.tree.get? ["sara", "main", "locked"] = some (.file (Kernel.switchContent true))) ∧
    ∃ options report e w', quietWorld.runRefusing readOnlyLock (sampleLoader.load true) =
        (.error e, w') ∧
      sampleLoader.Carried quietWorld readOnlyLock true options report w' ∧
      w'.tree.get? ["sara", "main", "enabled"] = some (.file (Kernel.switchContent true)) ∧
      w'.tree.get? ["sara", "main", "locked"] = some (.file (Bytes.ofString "0\n")) := by
  have hquiet : quietWorld.IsQuiet := ⟨rfl, Tree.isStill_of_all (by decide +kernel)⟩
  have hpresent : sampleLoader.present quietWorld = Submodule.all := by decide +kernel
  have hgiven : (quietWorld.run sampleLoader.options).1.toOption =
      some { main := { enabled := true, locked := true } } := by decide +kernel
  refine ⟨hquiet, ?_, ?_⟩
  · obtain ⟨w', hload⟩ : ∃ w', quietWorld.run (sampleLoader.load true) =
        (.ok ⟨[Protection.name], [], []⟩, w') := World.run_of_toOption (by decide +kernel)
    obtain ⟨options, hoptions, hcarried, hlock⟩ :=
      (load_all_or_reported hquiet sampleLoader (fun _ => none) true).1 _ _
        ((World.runRefusing_none _ _).trans hload)
    rw [hoptions] at hgiven
    obtain rfl := Option.some.inj hgiven
    refine ⟨_, w', hload, hcarried, ?_, hlock⟩
    have hswitched := hcarried.switched ((Protection.name, "enabled"), true) (by
      rw [hpresent]
      exact List.mem_cons_of_mem _ List.mem_cons_self)
    rw [if_neg (by decide +kernel)] at hswitched
    exact hswitched
  · obtain ⟨hfailed, hchanged⟩ : (quietWorld.runRefusing readOnlyLock
          (sampleLoader.load true)).1.toOption = none ∧
        (quietWorld.runRefusing readOnlyLock (sampleLoader.load true)).2.tree.get?
          ["sara", "main", "enabled"] ≠ none := by decide +kernel
    cases hload : quietWorld.runRefusing readOnlyLock (sampleLoader.load true) with
    | mk r w' =>
      rw [hload] at hfailed hchanged
      cases r with
      | ok report => cases hfailed
      | error e =>
        rcases (load_all_or_reported hquiet sampleLoader readOnlyLock true).2 e w' hload with
          htree | ⟨options, report, fault, hoptions, hcarried, -, -, hlock⟩
        · exact absurd (htree ▸ rfl) hchanged
        · rw [hoptions] at hgiven
          obtain rfl := Option.some.inj hgiven
          have hswitched := hcarried.switched ((Kernel.mainDirectory, "enabled"), true)
            List.mem_cons_self
          rw [if_pos (by decide +kernel)] at hswitched
          exact ⟨_, report, e, w', rfl, hcarried, hswitched, hlock⟩

end PathPolicy
