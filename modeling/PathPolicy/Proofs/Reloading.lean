import PathPolicy.Proofs.Adoption
import PathPolicy.Proofs.Locking

/-!
# Loading twice

Where nothing is left to do, a load changes nothing (`Loader.Settled.load`), and a load leaves
nothing to do: the switches that it can write hold their values, and the policies that it can write
are up to date, since everything that they are made of is found again (`Loader.Suits.settled`). So a
second load changes nothing, and reports what was loaded as unchanged. If the first one has locked
the configuration, the second one is refused (`Loader.load_again`).
-/

namespace PathPolicy

open Files (Path Place Tree)

namespace Loader

variable {l : Loader} {w w' : World} {refused : Files.Refusals} {force : Bool} {options : Options}

/-! ## Where nothing is left to do -/

/-- There is nothing left to do for a load: the switches that can be written hold the values that
the options configure, and the policies that can be written are up to date. -/
structure Settled (l : Loader) (w : World) (refused : Files.Refusals) (options : Options) :
    Prop where
  switched : ∀ s ∈ options.configured (l.present w),
    w.canWrite refused (l.kernel.path s.1.1 s.1.2) = true →
      w.tree.get? (l.kernel.fileIn w s.1.1 s.1.2) = some (.file (Kernel.switchContent s.2))
  current : ∀ d ∈ l.policies w,
    w.canWrite refused (l.kernel.path d.1.name Kernel.loadFile) = true →
      l.isUpToDate w false d.1 d.2 = true

theorem Settled.fate_ne_loaded (h : l.Settled w refused options) :
    ∀ d ∈ l.policies w, l.fate w refused false d.1 d.2 ≠ .loaded := by
  intro d hd hloaded
  obtain ⟨hold, hcan⟩ := fate_eq_loaded.1 hloaded
  rw [h.current d hd hcan] at hold
  cases hold

theorem Settled.get?_eq (h : l.Settled w refused options) (hlocked : options.main.locked = false)
    (hw : World.Tries refused (l.writes w false options) w w') (q : Place) :
    w'.tree.get? q = w.tree.get? q := by
  by_cases hq : ∃ e ∈ l.writes w false options,
      w.canWrite refused e.1 = true ∧ q = Tree.placeOf w.workingPlace e.1
  · obtain ⟨e, he, hcan, rfl⟩ := hq
    rw [hw.get?_of_mem (l.pairwise_writes w false options) he hcan]
    rcases mem_writes.1 he with ⟨s, hs, rfl⟩ | ⟨sm, p, hp, hold, rfl⟩
    · rw [(Options.isFree hs).placeOf_path]
      rw [Options.locks_eq_nil hlocked, List.append_nil] at hs
      exact (h.switched s hs hcan).symm
    · rw [h.current (sm, p) (mem_policies.2 hp) hcan] at hold
      cases hold
  · exact hw.get?_of_ne fun e he hcan hplace => hq ⟨e, he, hcan, hplace⟩

/-- Where nothing is left to do, a load comes to an end, and nothing has changed. -/
theorem Settled.load (h : l.Settled w refused options) (hw : l.IsCalm w)
    (hlocked : options.main.locked = false) (hunlocked : (w.run l.ensureUnlocked).1 = .ok ())
    (hoptions : (w.run l.options).1 = .ok options) :
    ∃ w', w.runRefusing refused (l.load false) = (.ok (l.report w refused false), w') ∧
      ∀ q, w'.tree.get? q = w.tree.get? q := by
  rcases load_calm hw refused false with
    ⟨e, w', -, -, herror | ⟨-, herror⟩⟩ | ⟨options', r, w', -, hoptions', hrun, hcourse, hr⟩
  · rw [hunlocked] at herror
    cases herror
  · rw [hoptions] at herror
    cases herror
  · obtain rfl := Except.ok.inj (hoptions.symm.trans hoptions')
    refine ⟨w', ?_, h.get?_eq hlocked (hcourse.tries (.inr h.fate_ne_loaded))⟩
    cases hr with
    | done => exact hrun
    | failed hlocked' =>
      rw [hlocked] at hlocked'
      cases hlocked'

/-! ## What a load leaves to do -/

theorem Suits.settled (h : l.Suits w) (hcourse : l.Course w refused force options w')
    (hlocked : options.main.locked = false) : l.Settled w' refused options := by
  have hresembles := h.resembles hcourse hlocked
  have hframe := hcourse.sameFrame h.isStill
  have hcanWrite : ∀ path, w'.canWrite refused path = w.canWrite refused path :=
    World.canWrite_congr hframe.toSamePlaces hframe.sameDirectories
  refine ⟨fun s hs hcan => ?switched, fun d hd hcan => ?current⟩
  case switched =>
    rw [hresembles.present_eq] at hs
    rw [hcanWrite] at hcan
    have hget := hcourse.get?_of_switch h.reaches (List.mem_append_left _ hs) hcan
    rwa [hframe.toSamePlaces.fileIn]
  case current =>
    rw [hresembles.policies_eq] at hd
    rw [hcanWrite] at hcan
    -- What can be written has not failed.
    refine h.isUpToDate hcourse hd fun hfailed => ?_
    unfold fate at hfailed
    rw [hcan] at hfailed
    split at hfailed <;> cases hfailed

theorem ensureUnlocked_eq_locked
    (hdir : w.tree.at? w.workingPlace (l.kernel.directory Kernel.mainDirectory) = some .directory)
    (hlocked : (w.run l.kernel.isLocked).1 = .ok true) :
    (w.run l.ensureUnlocked).1 = .error .locked := by
  have havailable : w.run l.ensureAvailable = (.ok (), w) := by
    have hrun : w.run (ExceptT.lift l.kernel.isAvailable) = (.ok true, w) :=
      Prod.ext (congrArg Except.ok (decide_eq_true hdir)) rfl
    unfold ensureAvailable
    rw [World.run_bind_of_ok hrun]
    rfl
  unfold ensureUnlocked
  rw [World.run_bind_of_ok havailable, World.run_bind_of_ok (World.run_of_fst hlocked)]
  rfl

theorem Suits.locked (h : l.Suits w) (hcourse : l.Course w refused force options w')
    (hlocked : options.main.locked = true) (hunlocked : (w.run l.ensureUnlocked).1 = .ok ())
    (hcan : w.canWrite refused (l.kernel.path Kernel.mainDirectory "locked") = true) :
    (w'.run l.ensureUnlocked).1 = .error .locked := by
  have hframe := hcourse.sameFrame h.isStill
  have hlocks := Options.mem_locks hlocked
  have hget := hcourse.get?_of_switch h.reaches (List.mem_append_right _ hlocks) hcan
  refine ensureUnlocked_eq_locked (hframe.at?_eq_directory ?_ (ensureUnlocked_eq_ok.1 hunlocked).1)
    (Kernel.Interface.isLocked_eq_ok.2 ⟨_, ?_, Kernel.isOn_switchContent⟩)
  · exact Path.endsInSlash_join _ (by decide)
  · obtain ⟨hslash, node, hresolve, -⟩ := Tree.canWrite_iff.1 (Bool.and_eq_true_iff.1 hcan).2
    have hagain := hframe.resolve hslash hresolve
    rw [(isFree_of_locks hlocks).placeOf_path, hget] at hagain
    exact (Tree.content_eq_ok_iff hframe.isStill).2 ⟨_, hagain⟩

/-! ## The second load -/

/-- After a load that does not lock, another one has nothing to do. -/
theorem Suits.reload (h : l.Suits w) (hcourse : l.Course w refused force options w')
    (hlocked : options.main.locked = false) (hunlocked : (w.run l.ensureUnlocked).1 = .ok ())
    (hoptions : (w.run l.options).1 = .ok options) :
    ∃ w'', w'.runRefusing refused (l.load false) = (.ok (l.report w' refused false), w'') ∧
      ∀ q, w''.tree.get? q = w'.tree.get? q := by
  have hresembles := h.resembles hcourse hlocked
  obtain ⟨v, hv⟩ := (Resembles.repeats_options w w' hresembles options _
    (World.run_of_fst hoptions)).1 trivial
  exact (h.settled hcourse hlocked).load (h.isCalm.same (hcourse.sameFrame h.isStill)) hlocked
    (ensureUnlocked_again h.reaches h.isStill hresembles.toRefills hunlocked)
    (congrArg Prod.fst hv)

/-- After a load that locks, another one is refused. -/
theorem Suits.reload_locked (h : l.Suits w) (hcourse : l.Course w refused force options w')
    (hlocked : options.main.locked = true) (hunlocked : (w.run l.ensureUnlocked).1 = .ok ())
    (hcan : w.canWrite refused (l.kernel.path Kernel.mainDirectory "locked") = true) :
    ∃ w'', w'.runRefusing refused (l.load false) = (.error .locked, w'') ∧
      w''.tree = w'.tree := by
  have hrefused := h.locked hcourse hlocked hunlocked hcan
  rcases load_calm (h.isCalm.same (hcourse.sameFrame h.isStill)) refused false with
    ⟨e, w'', hrun, htree, herror | ⟨hok, -⟩⟩ | ⟨-, -, -, hok, -⟩
  · obtain rfl := Except.error.inj (hrefused.symm.trans herror)
    exact ⟨w'', hrun, htree⟩
  · cases hrefused.symm.trans hok
  · cases hrefused.symm.trans hok

/-- What was loaded, or did not have to be, is unchanged the next time. -/
theorem Suits.mem_unchanged (h : l.Suits w) (hcourse : l.Course w refused force options w')
    (hlocked : options.main.locked = false) {name : String}
    (hname : name ∈ (l.report w refused force).loaded ++ (l.report w refused force).unchanged) :
    name ∈ (l.report w' refused false).unchanged := by
  have hresembles := h.resembles hcourse hlocked
  have hdone : ∃ sm p, (sm, p) ∈ l.policies w ∧ l.fate w refused force sm p ≠ .failed ∧
      sm.name = name := by
    rcases List.mem_append.1 hname with hname | hname
    · obtain ⟨sm, p, hp, hfate, hname⟩ := mem_loaded.1 hname
      exact ⟨sm, p, mem_policies.2 hp, by simp [hfate], hname⟩
    · obtain ⟨sm, p, hp, hfate, hname⟩ := Loader.mem_unchanged.1 hname
      exact ⟨sm, p, mem_policies.2 hp, by simp [hfate], hname⟩
  obtain ⟨sm, p, hp, hfate, hname⟩ := hdone
  have hcurrent := h.isUpToDate hcourse hp hfate
  rw [← hresembles.policies_eq] at hp
  exact Loader.mem_unchanged.2
    ⟨sm, p, mem_policies.1 hp, fate_eq_unchanged.2 hcurrent, hname⟩

theorem Suits.mem_failed (h : l.Suits w) (hcourse : l.Course w refused force options w')
    (hlocked : options.main.locked = false) {sm : Submodule} (hsm : sm ∈ l.present w) {e : Failure}
    (herror : (w.run (l.draft sm)).1 = .error e) :
    sm.name ∈ (l.report w' refused false).failed := by
  have hresembles := h.resembles hcourse hlocked
  rw [← hresembles.present_eq] at hsm
  refine Loader.mem_failed.2 (.inl ⟨sm, hsm, ?_, rfl⟩)
  cases hdraft : (w'.run (l.draft sm)).1 with
  | error e' => exact ⟨e', rfl⟩
  | ok p =>
    rw [hresembles.draft, herror] at hdraft
    cases hdraft

/-- Where the kernel takes policies and the configuration stays as it is, whichever files cannot be
written, a load that is repeated changes no file. What was loaded is then unchanged, and what could
not be made fails again. If the configuration asks for a lock, the second load is refused. -/
theorem load_again (h : l.Suits w) {report : LoadReport}
    (hload : w.runRefusing refused (l.load force) = (.ok report, w')) :
    ∃ options r w'', (w.run l.options).1 = .ok options ∧
      w'.runRefusing refused (l.load false) = (r, w'') ∧
      (∀ q, w''.tree.get? q = w'.tree.get? q) ∧
      (options.main.locked = true → r = .error .locked) ∧
      (options.main.locked = false → ∃ again, r = .ok again ∧ again.loaded = [] ∧
        (∀ name ∈ report.loaded ++ report.unchanged, name ∈ again.unchanged) ∧
        ∀ sm ∈ l.present w, (∃ e, (w.run (l.draft sm)).1 = .error e) →
          sm.name ∈ report.failed ∧ sm.name ∈ again.failed) := by
  rcases load_calm h.isCalm refused force with
    ⟨e, w₁, hrun, -⟩ | ⟨options, r, w₁, hunlocked, hoptions, hrun, hcourse, hr⟩
  · cases hrun.symm.trans hload
  obtain ⟨rfl, rfl⟩ := Prod.mk.inj (hrun.symm.trans hload)
  obtain ⟨hcan⟩ := hr
  cases hlocked : options.main.locked with
  | true =>
    obtain ⟨w'', hagain, htree⟩ := h.reload_locked hcourse hlocked hunlocked (hcan hlocked)
    exact ⟨options, _, w'', hoptions, hagain, fun q => by rw [htree], fun _ => rfl,
      fun hfalse => absurd (hlocked.symm.trans hfalse) (by decide)⟩
  | false =>
    obtain ⟨w'', hagain, hsame⟩ := h.reload hcourse hlocked hunlocked hoptions
    refine ⟨options, _, w'', hoptions, hagain, hsame,
      fun htrue => absurd (hlocked.symm.trans htrue) (by decide), fun _ => ⟨_, rfl, ?_, ?_, ?_⟩⟩
    · refine List.eq_nil_iff_forall_not_mem.2 fun name hname => ?_
      obtain ⟨sm, p, hp, hfate, -⟩ := mem_loaded.1 hname
      exact (h.settled hcourse hlocked).fate_ne_loaded (sm, p) (mem_policies.2 hp) hfate
    · exact fun name => h.mem_unchanged hcourse hlocked
    · rintro sm hsm ⟨e, herror⟩
      exact ⟨mem_failed.2 (.inl ⟨sm, hsm, ⟨e, herror⟩, rfl⟩),
        h.mem_failed hcourse hlocked hsm herror⟩

/-- What the sample has loaded is unchanged when it is loaded again. -/
theorem load_again_sample : sampleLoader.Suits sampleWorld ∧ ∃ w' w'' again,
    sampleWorld.runRefusing (fun _ => none) (sampleLoader.load true) =
      (.ok ⟨[Protection.name], [], []⟩, w') ∧
    w'.runRefusing (fun _ => none) (sampleLoader.load false) = (.ok again, w'') ∧
    again.loaded = [] ∧ Protection.name ∈ again.unchanged ∧
    ∀ q, w''.tree.get? q = w'.tree.get? q := by
  have hsuits : sampleLoader.Suits sampleWorld := {
    reaches := sampleLoader_reaches
    isStill := Tree.isStill_of_all (by decide +kernel)
    isNamed := by decide +kernel
    account := by decide +kernel
    aside := by decide +kernel
    images := fun _ e he c hget => by
      have hfiles : ∀ e ∈ World.loadedFiles,
          sampleWorld.tree.get? (sampleWorld.fileOf e.1 e.2) = none ∨
            sampleWorld.tree.get? (sampleWorld.fileOf e.1 e.2) =
              some (.file (Bytes.ofString (Digest.notLoaded ++ "\n"))) := by
        decide +kernel
      rcases hfiles e he with hnone | hflag
      · rw [hnone] at hget
        cases hget
      · obtain rfl := Files.Node.file.inj (Option.some.inj (hflag.symm.trans hget))
        exact Digest.head?_line _
    taken := fun d hd => by
      have htaken : ((sampleLoader.policies sampleWorld).all fun d =>
          (Protection.Blob.decode d.2.binary).toOption.any (·.1 = d.2.digest)) = true := by
        decide +kernel
      have htaken := List.all_eq_true.1 htaken d hd
      cases hdecode : Protection.Blob.decode d.2.binary with
      | error fault => simp [hdecode, Except.toOption] at htaken
      | ok found =>
        rw [hdecode] at htaken
        exact ⟨found.2, hdecode.trans (congrArg Except.ok
          (Prod.ext (of_decide_eq_true htaken) rfl))⟩ }
  have hgiven : (sampleWorld.run sampleLoader.options).1.toOption.map (·.main.locked) =
      some false := by decide +kernel
  obtain ⟨w', hload⟩ : ∃ w', sampleWorld.run (sampleLoader.load true) =
      (.ok ⟨[Protection.name], [], []⟩, w') := World.run_of_toOption (by decide +kernel)
  have hfirst : sampleWorld.runRefusing (fun _ => none) (sampleLoader.load true) = _ :=
    (World.runRefusing_none _ _).trans hload
  obtain ⟨options, r, w'', hoptions, hagain, hsame, -, hopen⟩ := load_again hsuits hfirst
  rw [hoptions] at hgiven
  obtain ⟨again, rfl, hloaded, hunchanged, -⟩ := hopen (Option.some.inj hgiven)
  exact ⟨hsuits, w', w'', again, hfirst, hagain, hloaded,
    hunchanged _ (List.mem_singleton_self _), hsame⟩

end Loader

end PathPolicy
