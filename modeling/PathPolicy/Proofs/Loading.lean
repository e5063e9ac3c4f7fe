import PathPolicy.Loader.Load
import PathPolicy.Proofs.Acceptance
import PathPolicy.Proofs.Programs

/-!
# What loading does to a kernel

Everything in a load leaves the account of the kernel as it is, except for the one step that loads
the policy which was made. What a load reads before it writes anything is what its policy is made of
(`Loader.survey`). So the course of a load that comes to a policy is always the same: it is made, it
is installed, and around that switches are set (`Loader.load_course`).
-/

namespace PathPolicy

namespace Loader

/-! ## The two parts of a load -/

section Parts

variable {m : Type → Type} [Monad m] [Host m] (l : Loader)

/-- What a load reads and makes before it writes anything. -/
def prepare : Task m (Options × List Submodule × List (Submodule × Option Policy)) := do
  l.ensureUnlocked
  let options ← l.options
  let present ← ExceptT.lift l.submodules
  let made ← present.mapM fun sm =>
    return (sm, ← Task.orReport (l.compile sm options Kernel.Features.empty))
  return (options, present, made)

/-- What a load writes after that. -/
def carryOut (force : Bool) (options : Options) (present : List Submodule)
    (made : List (Submodule × Option Policy)) : Task m LoadReport :=
  (if !options.main.enabled then l.trySwitch Kernel.mainDirectory "enabled" false
    else pure ()) >>= fun _ =>
  present.forM (l.switchOff options) >>= fun _ =>
  ((made.filterMap fun (sm, policy) => policy.map (sm, ·)).mapM fun (sm, policy) =>
    return (sm, ← l.install force sm policy)) >>= fun fates =>
  (if options.main.enabled then l.trySwitch Kernel.mainDirectory "enabled" true
    else pure ()) >>= fun _ =>
  present.forM (l.switchOn options) >>= fun _ =>
  (if options.main.locked then l.kernel.lock else pure ()) >>= fun _ =>
  return {
    loaded := namesOf fates .loaded
    unchanged := namesOf fates .unchanged
    failed := (made.filter (·.2.isNone)).map (·.1.name) ++ namesOf fates .failed }

end Parts

variable (l : Loader)

theorem submodules_eq (w : World) :
    (l.submodules : StateM World (List Submodule)) w = ([], w) ∨
      (l.submodules : StateM World (List Submodule)) w = (Submodule.all, w) := by
  have hrun : (l.submodules : StateM World (List Submodule)) w =
      ((bif decide (w.tree.at? w.workingPlace (l.kernel.directory Protection.name) =
        some .directory) then [Submodule.protection] else []).reverse, w) := rfl
  rw [hrun]
  cases decide (w.tree.at? w.workingPlace (l.kernel.directory Protection.name) = some .directory)
  · exact .inl rfl
  · exact .inr rfl

theorem install_eq [H : Host (StateM World)] (force : Bool) (sm : Submodule) (p : Policy) :
    (l.install force sm p : Task (StateM World) Fate) =
      (if force then pure none else l.loadedDigest? sm) >>= fun current =>
        if current = some p.digest.hex then do
          Task.report (.upToDate sm.name)
          return .unchanged
        else do
          match ← Task.orReport (l.kernel.load sm.name p.binary) with
          | some () =>
            Task.report (.loaded sm.name p.digest)
            return .loaded
          | none => return .failed := by
  cases force <;> rfl

theorem load_eq [H : Host (StateM World)] (force : Bool) :
    (l.load force : Task (StateM World) LoadReport) =
      l.prepare >>= fun r => l.carryOut force r.1 r.2.1 r.2.2 := by
  unfold load prepare carryOut
  simp only [bind_assoc, pure_bind]
  refine bind_congr fun _ => bind_congr fun options => bind_congr fun present =>
    bind_congr fun made => ?_
  cases options.main.enabled <;> cases options.main.locked <;>
    simp only [Bool.not_true, Bool.not_false, if_true, Bool.false_eq_true, if_false, pure_bind]

end Loader

/-! ## Reading the configuration -/

namespace Moves

section Reading

variable {I : World → Prop} {R : World → World → Prop} [Lasting I] [AllowsReading R]

theorem readOptions (directory : Files.Path) :
    Moves I R (Config.readOptions directory : Task (StateM World) Options).run := by
  unfold Config.readOptions
  refine run_bind (run_lift (tryReadText _)) fun r => ?_
  split
  · split
    · exact run_pure _
    · exact run_throw _
  · exact run_bind (run_report _) fun _ => run_pure _
  · exact run_throw _

theorem ruleFiles (directory : Files.Path) (submodule : String) :
    Moves I R
      (Config.ruleFiles directory submodule : Task (StateM World) (List Files.Path)).run := by
  unfold Config.ruleFiles
  refine run_bind (run_lift (listDirectory _)) fun r => ?_
  split
  · exact run_pure _
  · exact run_pure _
  · exact run_throw _

theorem readRuleFile (path : Files.Path) :
    Moves I R (Config.readRuleFile path : Task (StateM World) (List Config.Line)).run := by
  unfold Config.readRuleFile
  refine run_bind (run_lift (tryReadText _)) fun r => ?_
  split
  · exact run_bind (run_forM run_report _) fun _ => run_pure _
  · exact run_pure _
  · exact run_throw _

theorem readRuleLines (directory : Files.Path) (submodule : String) :
    Moves I R
      (Config.readRuleLines directory submodule : Task (StateM World) (List Config.Line)).run :=
  run_bind (ruleFiles _ _) fun _ =>
    run_bind (run_mapM fun path _ => readRuleFile path) fun _ => run_pure _

/-! ## Reading the kernel and images -/

theorem readFlag (l : Kernel.Interface) (submodule file : String) :
    Moves I R (l.readFlag submodule file : Task (StateM World) String).run :=
  run_bind (run_access (tryReadText _)) fun _ => run_pure _

theorem readSwitch (l : Kernel.Interface) (submodule file : String) :
    Moves I R (l.readSwitch submodule file : Task (StateM World) Bool).run :=
  run_bind (readFlag l submodule file) fun _ => run_pure _

theorem readFeatures (l : Kernel.Interface) (submodule : String) (names : List String) :
    Moves I R (l.features submodule names : Task (StateM World) Kernel.Features).run := by
  refine run_foldlM (fun f name => run_bind (run_attempt (readFlag _ _ _)) fun value => ?_) _ _
  split
  · exact run_pure _
  · exact run_pure _

theorem inspectFile (path : Files.Path) :
    Moves I R (Loader.inspectFile path : StateM World Image.Inspection) := by
  refine (isFile path).bind fun known => ?_
  cases known with
  | false => exact .pure _
  | true =>
    refine (readFile path).bind fun r => ?_
    cases r with
    | ok content => exact .pure _
    | error fault => exact .pure _

theorem inspectFiles (paths : List Files.Path) :
    Moves I R (Loader.inspectFiles paths : StateM World Image.Inspector) := by
  refine (mapM (fun path => (inspectFile path).bind fun _ => .pure _) _).bind fun _ => .pure _

variable (l : Loader)

theorem inspector (paths : List Files.Path) :
    Moves I R (l.inspector paths : StateM World Image.Inspector) := by
  unfold Loader.inspector
  split
  · exact inspectFiles paths
  · exact .pure _

theorem ensureAvailable : Moves I R (l.ensureAvailable : Task (StateM World) Unit).run := by
  refine run_bind (run_lift (isDirectory _)) fun available => ?_
  cases available with
  | false => exact run_throw _
  | true => exact run_pure _

theorem ensureUnlocked : Moves I R (l.ensureUnlocked : Task (StateM World) Unit).run := by
  refine run_bind (ensureAvailable l) fun _ => run_bind (readSwitch _ _ _) fun locked => ?_
  cases locked with
  | false => exact run_pure _
  | true => exact run_throw _

theorem context (sm : Submodule) (lines : List (List String)) (options : Options)
    (overrides : Kernel.Features) (strictness : Strictness) :
    Moves I R
      (l.context sm lines options overrides strictness : Task (StateM World) Context).run :=
  run_bind (run_bind (readFeatures _ _ _) fun _ => run_pure _) fun _ =>
    run_bind (run_lift (inspector l _)) fun _ => run_pure _

omit [Lasting I] in
theorem submodules : Moves I R (l.submodules : StateM World (List Submodule)) := by
  intro w _
  rcases l.submodules_eq w with h | h <;> rw [h] <;> exact AllowsReading.refl w

theorem compileLines (sm : Submodule) (lines : List Config.Line) (options : Options)
    (overrides : Kernel.Features) :
    Moves I R (l.compileLines sm lines options overrides : Task (StateM World) Policy).run := by
  refine run_bind (context l _ _ _ _ _) fun ctx => run_bind (run_forM run_report _) fun _ => ?_
  split
  · exact run_pure _
  · exact run_throw _

theorem compile (sm : Submodule) (options : Options) (overrides : Kernel.Features) :
    Moves I R (l.compile sm options overrides : Task (StateM World) Policy).run :=
  run_bind (readRuleLines _ _) fun _ => compileLines l _ _ _ _

omit [Lasting I] in
theorem decompile (sm : Submodule) (binary : Bytes) :
    Moves I R (Loader.decompile sm binary : Task (StateM World) (List Config.Line)).run := by
  unfold Loader.decompile
  split
  · exact run_pure _
  · exact run_throw _

theorem prepare : Moves I R (Loader.prepare l : Task (StateM World) _).run :=
  run_bind (ensureUnlocked l) fun _ => run_bind (readOptions _) fun _ =>
    run_bind (run_lift (submodules l)) fun _ => run_bind
      (run_mapM fun _ _ => run_bind (run_orReport (compile l _ _ _)) fun _ => run_pure _)
      fun _ => run_pure _

theorem currentDigest (force : Bool) (sm : Submodule) :
    Moves I R (if force then pure none else l.loadedDigest? sm :
      Task (StateM World) (Option String)).run := by
  cases force with
  | true => exact run_pure _
  | false => exact run_attempt (readFlag _ _ _)

end Reading

/-! ## Writing to the kernel -/

section Writing

variable (l : Loader) {P : Policy → Prop} {R : World → World → Prop} [AllowsReading R]
  [hR : AllowsLoading l.kernel P R]

include hR

theorem trySwitch {submodule file : String} (h : (submodule, file) ∈ Kernel.switchFiles)
    (value : Bool) :
    Moves l.kernel.Reaches R (l.trySwitch submodule file value : Task (StateM World) Unit).run :=
  run_bind (run_orReport (run_writeSwitch h value)) fun _ => run_pure _

theorem switchOff (options : Options) (sm : Submodule) :
    Moves l.kernel.Reaches R (l.switchOff options sm : Task (StateM World) Unit).run := by
  cases sm
  refine run_bind ?_ fun _ => ?_
  · refine run_bind (trySwitch l (by decide) _) fun _ => ?_
    exact run_bind (trySwitch l (by decide) _) fun _ => run_pure _
  · split
    · exact trySwitch l (by decide) _
    · exact run_pure _

theorem switchOn (options : Options) (sm : Submodule) :
    Moves l.kernel.Reaches R (l.switchOn options sm : Task (StateM World) Unit).run := by
  cases sm
  unfold Loader.switchOn
  split
  · exact trySwitch l (by decide) _
  · exact run_pure _

theorem switchMain (condition value : Bool) :
    Moves l.kernel.Reaches R (if condition then l.trySwitch Kernel.mainDirectory "enabled" value
      else pure () : Task (StateM World) Unit).run := by
  split
  · exact trySwitch l (by decide) _
  · exact run_pure _

theorem install (force : Bool) (sm : Submodule) {p : Policy} (hp : P p) :
    Moves l.kernel.Reaches R (l.install force sm p : Task (StateM World) Loader.Fate).run := by
  cases sm
  rw [Loader.install_eq]
  refine run_bind (currentDigest l force _) fun current => ?_
  split
  · exact run_bind (run_report _) fun _ => run_pure _
  · refine run_bind (run_orReport (run_load hp)) fun r => ?_
    cases r with
    | some u => exact run_bind (run_report _) fun _ => run_pure _
    | none => exact run_pure _

end Writing

theorem lock (l : Loader) {P : Policy → Prop} (condition : Bool) :
    Moves l.kernel.Reaches (World.Follows P) (if condition then l.kernel.lock else pure () :
      Task (StateM World) Unit).run := by
  split
  · exact run_writeFlag (by decide) _
  · exact run_pure _

end Moves

/-! ## What a policy is made of -/

/-- A policy, and the lines and the context that it was made of. -/
structure Making where
  lines : List Config.Line
  ctx : Context
  policy : Policy
  made : (Protection.compile lines ctx).result = .ok policy

/-- A report says that the policy of memory protection was installed with this fate. -/
def LoadReport.Tells (report : LoadReport) : Loader.Fate → Prop
  | .loaded => Protection.name ∈ report.loaded
  | .unchanged => Protection.name ∈ report.unchanged
  | .failed => False

namespace Loader

section Sources

variable {m : Type → Type} [Monad m] [Host m] (l : Loader)

/-- What the policy of a submodule's rule files is made of. -/
def sources (sm : Submodule) (options : Options) (overrides : Kernel.Features) :
    Task m (List Config.Line × Context) := do
  let lines ← Config.readRuleLines l.configDirectory sm.name
  let ctx ← l.context sm (lines.map (·.tokens)) options overrides l.strictness
  return (lines, ctx)

/-- What a load reads to make the policy of memory protection. -/
def survey : Task m (List Config.Line × Context) := do
  l.ensureUnlocked
  let options ← l.options
  let _ ← ExceptT.lift l.submodules
  l.sources .protection options Kernel.Features.empty

end Sources

/-- What a load makes: the policy of what it has read. -/
def Makes (l : Loader) (w : World) (m : Making) : Prop := (w.run l.survey).1 = .ok (m.lines, m.ctx)

variable {l : Loader} {w w' : World} {p : Policy}

theorem options_of_context {sm : Submodule} {lines : List (List String)} {options : Options}
    {overrides : Kernel.Features} {strictness : Strictness} {ctx : Context}
    (h : w.run (l.context sm lines options overrides strictness) = (.ok ctx, w')) :
    ctx.options = options := by
  obtain ⟨features, w₁, -, h⟩ := World.run_bind_ok h
  obtain ⟨inspector, w₂, -, h⟩ := World.run_bind_ok h
  rw [← Except.ok.inj (Prod.mk.inj h).1]

theorem run_compile_ok {sm : Submodule} {options : Options} {overrides : Kernel.Features}
    (h : w.run (l.compile sm options overrides) = (.ok p, w')) :
    ∃ lines ctx, (w.run (l.sources sm options overrides)).1 = .ok (lines, ctx) ∧
      ctx.options = options ∧ (sm.compile lines ctx).result = .ok p := by
  obtain ⟨lines, w₁, hlines, hcompile⟩ := World.run_bind_ok h
  obtain ⟨ctx, w₂, hctx, hreport⟩ := World.run_bind_ok hcompile
  obtain ⟨-, w₃, -, hresult⟩ := World.run_bind_ok hreport
  refine ⟨lines, ctx, ?_, options_of_context hctx, ?_⟩
  · unfold sources
    rw [World.run_bind_of_ok hlines, World.run_bind_of_ok hctx]
    rfl
  · split at hresult
    · rename_i policy heq
      rw [heq, Except.ok.inj (Prod.mk.inj hresult).1]
    · cases hresult

theorem run_submodules {present : List Submodule}
    (h : w.run (ExceptT.lift l.submodules) = (.ok present, w')) :
    w' = w ∧ (present = [] ∨ present = Submodule.all) := by
  have hrun : w.run (ExceptT.lift l.submodules) =
      (.ok ((l.submodules : StateM World (List Submodule)) w).1,
        ((l.submodules : StateM World (List Submodule)) w).2) := rfl
  rw [hrun] at h
  obtain ⟨hpresent, hworld⟩ := Prod.mk.inj h
  rw [← Except.ok.inj hpresent, ← hworld]
  rcases l.submodules_eq w with heq | heq <;> rw [heq] <;> simp

/-- The policy that is made first is the one of memory protection. -/
theorem run_made {options : Options} {present : List Submodule}
    {made : List (Submodule × Option Policy)} (hpresent : present = [] ∨ present = Submodule.all)
    (h : w.run (present.mapM fun sm =>
      return (sm, ← Task.orReport (l.compile sm options Kernel.Features.empty))) =
        (.ok made, w')) :
    made = [] ∨ ∃ x, made = [(.protection, x)] ∧ ∀ p, x = some p →
      ∃ w₁, w.run (l.compile .protection options Kernel.Features.empty) = (.ok p, w₁) := by
  rcases hpresent with rfl | rfl
  · exact .inl (Except.ok.inj (Prod.mk.inj h).1).symm
  · unfold Submodule.all at h
    rw [List.mapM_cons] at h
    obtain ⟨first, w₁, hfirst, hrest⟩ := World.run_bind_ok h
    obtain ⟨x, w₂, hx, hpair⟩ := World.run_bind_ok hfirst
    obtain ⟨more, w₃, hmore, hmade⟩ := World.run_bind_ok hrest
    cases hpair
    cases hmore
    cases hmade
    refine .inr ⟨x, rfl, fun p hp => ?_⟩
    subst hp
    exact ⟨_, World.run_orReport_some hx⟩

/-- What a load has made when it comes to writing: nothing, or the policy of what it has read. -/
theorem prepare_makes {options : Options} {present : List Submodule}
    {made : List (Submodule × Option Policy)}
    (h : w.run l.prepare = (.ok (options, present, made), w')) :
    made = [] ∨ ∃ x, made = [(.protection, x)] ∧ ∀ p, x = some p →
      ∃ m, l.Makes w m ∧ m.ctx.options = options ∧ m.policy = p := by
  obtain ⟨_, w₁, hunlocked, h⟩ := World.run_bind_ok h
  obtain ⟨options', w₂, hoptions, h⟩ := World.run_bind_ok h
  obtain ⟨present', w₃, hpresent, h⟩ := World.run_bind_ok h
  obtain ⟨made', w₄, hmade, h⟩ := World.run_bind_ok h
  cases h
  refine (run_made (run_submodules hpresent).2 hmade).imp_right ?_
  rintro ⟨x, hx, hcompiles⟩
  refine ⟨x, hx, fun p hp => ?_⟩
  obtain ⟨w₅, hcompile⟩ := hcompiles p hp
  obtain ⟨lines, ctx, hsources, hctx, hresult⟩ := run_compile_ok hcompile
  refine ⟨⟨lines, ctx, p, hresult⟩, ?_, hctx, rfl⟩
  unfold Makes survey
  rw [World.run_bind_of_ok hunlocked, World.run_bind_of_ok hoptions,
    World.run_bind_of_ok hpresent]
  exact hsources

theorem load_follows (hk : l.kernel.Reaches w) (force : Bool) :
    w.Follows (fun p => ∃ made, l.Makes w made ∧ made.policy = p) (w.run (l.load force)).2 := by
  rw [load_eq]
  refine Moves.run_bind_of (.prepare l) hk fun (options, present, made) w₁ hprepare hk₁ => ?_
  refine Moves.run_bind (.switchMain l _ _) (fun _ => Moves.run_bind
    (.run_forM (.switchOff l options) _) fun _ => Moves.run_bind ?_ fun fates =>
    Moves.run_bind (.switchMain l _ _) fun _ => Moves.run_bind
    (.run_forM (.switchOn l options) _) fun _ => Moves.run_bind (.lock l _) fun _ =>
    .run_pure _) w₁ hk₁
  refine .run_mapM fun (sm, p) hmem => ?_
  obtain ⟨⟨sm', x⟩, hmade, hx⟩ := List.mem_filterMap.1 hmem
  obtain ⟨p', rfl, hp⟩ := Option.map_eq_some_iff.1 hx
  obtain ⟨rfl, rfl⟩ := Prod.mk.inj hp
  rcases prepare_makes hprepare with hnone | ⟨x, hsome, hmakes⟩
  · simp [hnone] at hmade
  · obtain ⟨-, rfl⟩ := Prod.mk.inj (List.mem_singleton.1 (hsome ▸ hmade))
    obtain ⟨m, hmake, -, rfl⟩ := hmakes p' rfl
    exact .run_bind (.install l force sm' ⟨⟨m, hmake, rfl⟩, fun _ _ =>
      Protection.digest_of_decode m.made⟩) fun _ => .run_pure _

/-- A policy is left unloaded only if the kernel reports its digest. -/
theorem install_unchanged (hk : l.kernel.Reaches w) {content : Bytes}
    (hheld : w.held Kernel.digestFile = some (.file content)) {force : Bool}
    (h : w.run (l.install force .protection p) = (.ok .unchanged, w')) :
    w.Steady w' ∧ ∃ text, content.toString? = some text ∧ Text.trim text = p.digest.hex := by
  rw [install_eq] at h
  obtain ⟨current, w₁, hcurrent, hrest⟩ := World.run_bind_ok h
  by_cases heq : current = some p.digest.hex
  · subst heq
    cases force with
    | true => cases hcurrent
    | false =>
      have hdigest : w.run (Task.attempt (l.kernel.readFlag Protection.name Kernel.digestFile)) =
          (.ok (some p.digest.hex), w₁) := hcurrent
      obtain ⟨hread, hk₁⟩ := Moves.steady (.run_attempt (.readFlag _ _ _)) hk hdigest
      rw [if_pos rfl] at hrest
      obtain ⟨hreport, -⟩ := Moves.steady
        (.run_bind (.run_report _) fun _ => .run_pure _) hk₁ hrest
      refine ⟨hread.trans hreport, ?_⟩
      rw [World.run_attempt] at hdigest
      split at hdigest
      · rename_i flag w₂ hflag
        obtain ⟨text, htext, rfl⟩ := hk.readFlag (by decide) hheld hflag
        exact ⟨text, htext, Option.some.inj (Except.ok.inj (Prod.mk.inj hdigest).1)⟩
      · cases hdigest
  · rw [if_neg heq] at hrest
    obtain ⟨r, w₂, -, hfate⟩ := World.run_bind_ok hrest
    cases r with
    | none => cases hfate
    | some u =>
      obtain ⟨-, w₃, -, hfate⟩ := World.run_bind_ok hfate
      cases hfate

/-- A policy that is loaded is written to the kernel, and nothing else is. -/
theorem install_loaded {R : World → World → Prop} [AllowsReading R] (hk : l.kernel.Reaches w)
    {m : Making} {force : Bool}
    (h : w.run (l.install force .protection m.policy) = (.ok .loaded, w')) :
    ∃ w₁ w₂, (R w w₁ ∧ l.kernel.Reaches w₁) ∧
      w₁.run (l.kernel.load Protection.name m.policy.binary) = (.ok (), w₂) ∧ R w₂ w' := by
  rw [install_eq] at h
  obtain ⟨current, w₁, hcurrent, h⟩ := World.run_bind_ok h
  obtain ⟨hbefore, hk₁⟩ := (Moves.currentDigest l force _).of_run (R := R) hk hcurrent
  split at h
  · obtain ⟨-, w₂, -, hfate⟩ := World.run_bind_ok h
    cases hfate
  · obtain ⟨r, w₂, hload, h⟩ := World.run_bind_ok h
    cases r with
    | none => cases h
    | some u =>
      have hwritten := World.run_orReport_some hload
      obtain ⟨-, hk₂⟩ := (Moves.run_load ⟨trivial, fun _ _ =>
        Protection.digest_of_decode m.made⟩).of_run (R := World.Follows fun _ => True) hk₁ hwritten
      obtain ⟨hafter, -⟩ :=
        (Moves.run_bind (.run_report _) fun _ => .run_pure _).of_run (R := R) hk₂ h
      exact ⟨w₁, w₂, ⟨hbefore, hk₁⟩, hwritten, hafter⟩

theorem run_fates {force : Bool} {made : List (Submodule × Option Policy)}
    {fates : List (Submodule × Fate)} {fate : Fate}
    (hmade : made = [] ∨ ∃ x, made = [(.protection, x)])
    (h : w.run ((made.filterMap fun (sm, policy) => policy.map (sm, ·)).mapM fun (sm, policy) =>
      return (sm, ← l.install force sm policy)) = (.ok fates, w'))
    (hname : Protection.name ∈ namesOf fates fate) :
    ∃ p, made = [(.protection, some p)] ∧
      w.run (l.install force .protection p) = (.ok fate, w') := by
  have hnil : ¬ Protection.name ∈ namesOf [] fate := by simp [namesOf]
  rcases hmade with rfl | ⟨x, rfl⟩
  · cases h
    exact absurd hname hnil
  · cases x with
    | none =>
      cases h
      exact absurd hname hnil
    | some p =>
      refine ⟨p, rfl, ?_⟩
      change w.run (List.mapM _ [(Submodule.protection, p)]) = _ at h
      rw [List.mapM_cons] at h
      obtain ⟨first, w₁, hfirst, hrest⟩ := World.run_bind_ok h
      obtain ⟨found, w₂, hfate, hpair⟩ := World.run_bind_ok hfirst
      obtain ⟨more, w₃, hmore, hfates⟩ := World.run_bind_ok hrest
      cases hpair
      cases hmore
      cases hfates
      have hfound : found = fate := by
        by_contra hne
        simp [namesOf, hne] at hname
      rw [hfate, hfound]

/-- How a load went that installed a policy: it has made the policy before, and locks the
configuration at its end. -/
theorem load_course {R : World → World → Prop} {P : Policy → Prop} [AllowsReading R]
    [AllowsLoading l.kernel P R] (hk : l.kernel.Reaches w) {force : Bool} {report : LoadReport}
    (h : w.run (l.load force) = (.ok report, w')) {fate : Fate} (hfate : report.Tells fate) :
    ∃ m w₁ w₂ w₃, l.Makes w m ∧ (R w w₁ ∧ l.kernel.Reaches w₁) ∧
      w₁.run (l.install force .protection m.policy) = (.ok fate, w₂) ∧
      (R w₂ w₃ ∧ l.kernel.Reaches w₃) ∧
      w₃.run (if m.ctx.options.main.locked then l.kernel.lock else pure ()) = (.ok (), w') := by
  rw [load_eq] at h
  obtain ⟨⟨options, present, made⟩, w₁, hprepare, h⟩ := World.run_bind_ok h
  obtain ⟨_, w₂, hoff, h⟩ := World.run_bind_ok h
  obtain ⟨_, w₃, hswitches, h⟩ := World.run_bind_ok h
  obtain ⟨fates, w₄, hfates, h⟩ := World.run_bind_ok h
  obtain ⟨_, w₅, hon, h⟩ := World.run_bind_ok h
  obtain ⟨_, w₆, hswitchesOn, h⟩ := World.run_bind_ok h
  obtain ⟨_, w₇, hlock, h⟩ := World.run_bind_ok h
  obtain ⟨hreport, rfl⟩ := Prod.mk.inj h
  obtain rfl := Except.ok.inj hreport
  have hname : Protection.name ∈ namesOf fates fate := by
    cases fate with
    | loaded => exact hfate
    | unchanged => exact hfate
    | failed => exact hfate.elim
  have hmade := prepare_makes hprepare
  obtain ⟨p, rfl, hinstall⟩ := run_fates (hmade.imp_right fun ⟨x, hx, _⟩ => ⟨x, hx⟩) hfates hname
  obtain ⟨m, hmakes, rfl, rfl⟩ : ∃ m, l.Makes w m ∧ m.ctx.options = options ∧ m.policy = p := by
    rcases hmade with hnone | ⟨x, hsome, hmakes⟩
    · cases hnone
    · cases hsome
      exact hmakes p rfl
  -- What comes before and after the installation reads, and sets switches.
  obtain ⟨r₁, hk₁⟩ := (Moves.prepare l).of_run (R := R) hk hprepare
  obtain ⟨r₂, hk₂⟩ := (Moves.switchMain l _ _).of_run (R := R) hk₁ hoff
  obtain ⟨r₃, hk₃⟩ := (Moves.run_forM (.switchOff l _) _).of_run (R := R) hk₂ hswitches
  obtain ⟨-, hk₄⟩ := (Moves.install l force .protection ⟨trivial, fun _ _ =>
    Protection.digest_of_decode m.made⟩).of_run (R := World.Follows fun _ => True) hk₃ hinstall
  obtain ⟨r₅, hk₅⟩ := (Moves.switchMain l _ _).of_run (R := R) hk₄ hon
  obtain ⟨r₆, hk₆⟩ := (Moves.run_forM (.switchOn l _) _).of_run (R := R) hk₅ hswitchesOn
  have htrans := @AllowsReading.trans R _
  exact ⟨m, w₃, w₄, w₆, hmakes, ⟨htrans (htrans r₁ r₂) r₃, hk₃⟩, hinstall, ⟨htrans r₅ r₆, hk₆⟩,
    hlock⟩

/-- A load that reports a policy as unchanged has made the policy whose digest the kernel reports,
and has loaded nothing. -/
theorem load_unchanged (hk : l.kernel.Reaches w) {content : Bytes}
    (hheld : w.held Kernel.digestFile = some (.file content)) {force : Bool} {report : LoadReport}
    (h : w.run (l.load force) = (.ok report, w')) (hname : Protection.name ∈ report.unchanged) :
    w.Steady w' ∧ ∃ now, l.Makes w now ∧ ∃ text, content.toString? = some text ∧
      Text.trim text = now.policy.digest.hex := by
  have hfate : report.Tells .unchanged := hname
  obtain ⟨now, w₁, w₂, w₃, hmakes, ⟨hbefore, hk₁⟩, hinstall, ⟨hafter, hk₃⟩, hlock⟩ :=
    load_course (R := World.Follows fun _ => False) hk h hfate
  obtain ⟨hinstalled, text, htext, hdigest⟩ :=
    install_unchanged hk₁ (hbefore.steady.keeps _ (by simp [World.account]) _ hheld) hinstall
  obtain ⟨hlocked, -⟩ := Moves.steady (.lock l _) hk₃ hlock
  exact ⟨((hbefore.steady.trans hinstalled).trans hafter.steady).trans hlocked, now, hmakes, text,
    htext, hdigest⟩

/-- A load that reports a policy as loaded has written the policy that it has made. -/
theorem load_loaded {R : World → World → Prop} {P : Policy → Prop} [AllowsReading R]
    [AllowsLoading l.kernel P R] (hk : l.kernel.Reaches w) {force : Bool} {report : LoadReport}
    (h : w.run (l.load force) = (.ok report, w')) (hname : Protection.name ∈ report.loaded) :
    ∃ m w₁ w₂ w₃, l.Makes w m ∧ (R w w₁ ∧ l.kernel.Reaches w₁) ∧
      w₁.run (l.kernel.load Protection.name m.policy.binary) = (.ok (), w₂) ∧
      (R w₂ w₃ ∧ l.kernel.Reaches w₃) ∧
      w₃.run (if m.ctx.options.main.locked then l.kernel.lock else pure ()) = (.ok (), w') := by
  have hfate : report.Tells .loaded := hname
  obtain ⟨m, w₁, w₂, w₃, hmakes, ⟨hbefore, hk₁⟩, hinstall, ⟨hafter, hk₃⟩, hlock⟩ :=
    load_course (R := R) hk h hfate
  obtain ⟨w₁', w₂', ⟨hbefore', hk₁'⟩, hwritten, hafter'⟩ :=
    install_loaded (R := R) hk₁ hinstall
  have htrans := @AllowsReading.trans R _
  exact ⟨m, w₁', w₂', w₃, hmakes, ⟨htrans hbefore hbefore', hk₁'⟩, hwritten,
    ⟨htrans hafter' hafter, hk₃⟩, hlock⟩

end Loader

end PathPolicy
