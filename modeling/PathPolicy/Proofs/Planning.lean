import PathPolicy.Proofs.SecondReadings
import PathPolicy.Proofs.Writing

/-!
# What a load plans to write

A load first reads, and makes policies, and only then writes (`Loader.load_eq`). What it writes
follows from what was read: from the options, and from which policies could be made. A load does one
of two things. It fails before it has written anything, or it sets the switches of its plan, loads a
policy in between, and sets the lock last (`Loader.load_calm`). Only where a policy is loaded the
kernel may do something of its own. In a quiet world it does not, and all that a load does is to
write the files of its plan, those that can be written (`Loader.load_cases`).
-/

namespace PathPolicy

open Files (Path Place Tree)
open World (Does)

/-! ## The plan -/

/-- The switches that the options set, with their values. -/
def Options.configured (o : Options) (present : List Submodule) : List ((String × String) × Bool) :=
  ((Kernel.mainDirectory, "enabled"), o.main.enabled) :: present.flatMap fun sm =>
    ((sm.name, "enabled"), sm.isEnabled o) :: (sm.switches o).map fun s => ((sm.name, s.1), s.2)

/-- The switches that are set before policies are loaded. -/
def Options.early (o : Options) (present : List Submodule) : List ((String × String) × Bool) :=
  (if !o.main.enabled then [((Kernel.mainDirectory, "enabled"), false)] else []) ++
    present.flatMap fun sm => ((sm.switches o).map fun s => ((sm.name, s.1), s.2)) ++
      if !sm.isEnabled o then [((sm.name, "enabled"), false)] else []

/-- The switches that are set after policies were loaded. -/
def Options.late (o : Options) (present : List Submodule) : List ((String × String) × Bool) :=
  (if o.main.enabled then [((Kernel.mainDirectory, "enabled"), true)] else []) ++
    present.flatMap fun sm => if sm.isEnabled o then [((sm.name, "enabled"), true)] else []

/-- The switch that locks the configuration. -/
def Options.locks (o : Options) : List ((String × String) × Bool) :=
  if o.main.locked then [((Kernel.mainDirectory, "locked"), true)] else []

theorem Options.locks_eq_nil {o : Options} (h : o.main.locked = false) : o.locks = [] := by
  unfold locks
  rw [h]
  rfl

theorem Options.mem_locks {o : Options} (h : o.main.locked = true) :
    ((Kernel.mainDirectory, "locked"), true) ∈ o.locks := by
  unfold locks
  rw [if_pos h]
  exact List.mem_singleton_self _

section Switches

variable (o : Options) (present : List Submodule)

/-- Every switch is set once, either before policies are loaded or after that. -/
theorem Options.early_late_perm :
    (o.early present ++ o.late present).Perm (o.configured present) := by
  have hmain : ((if !o.main.enabled then [((Kernel.mainDirectory, "enabled"), false)] else []) ++
      if o.main.enabled then [((Kernel.mainDirectory, "enabled"), true)] else []) =
        [((Kernel.mainDirectory, "enabled"), o.main.enabled)] := by
    cases o.main.enabled <;> rfl
  have hsubmodule : ∀ sm : Submodule,
      (((sm.switches o).map (fun s => ((sm.name, s.1), s.2)) ++
        if !sm.isEnabled o then [((sm.name, "enabled"), false)] else []) ++
          if sm.isEnabled o then [((sm.name, "enabled"), true)] else []).Perm
        (((sm.name, "enabled"), sm.isEnabled o) ::
          (sm.switches o).map fun s => ((sm.name, s.1), s.2)) := by
    intro sm
    rw [List.append_assoc]
    cases sm.isEnabled o <;> exact List.perm_append_comm
  have hsubmodules := (List.flatMap_append_perm present _ _).trans
    (List.Perm.flatMap_left present fun sm _ => hsubmodule sm)
  unfold early late
  rw [List.append_assoc]
  refine (((List.perm_append_comm_assoc _ _ _).trans
    (hsubmodules.append_left _)).append_left _).trans (.of_eq ?_)
  rw [← List.append_assoc, hmain]
  rfl

/-- The options set no switch that the kernel loads from, or gives account in. -/
theorem Options.isFree {o : Options} {present : List Submodule} {s : (String × String) × Bool}
    (h : s ∈ o.configured present ++ o.locks) : Kernel.IsFree s.1.1 s.1.2 := by
  rcases List.mem_append.1 h with h | h
  · rcases List.mem_cons.1 h with rfl | h
    · exact (by decide : Kernel.IsFree Kernel.mainDirectory "enabled")
    · obtain ⟨sm, -, hs⟩ := List.mem_flatMap.1 h
      cases sm
      rcases List.mem_cons.1 hs with rfl | hs
      · exact (by decide : Kernel.IsFree Protection.name "enabled")
      · obtain ⟨s', hs', rfl⟩ := List.mem_map.1 hs
        rcases List.mem_pair.1 hs' with rfl | rfl
        · exact (by decide : Kernel.IsFree Protection.name "xattr_enabled")
        · exact (by decide : Kernel.IsFree Protection.name "xattr_user_allowed")
  · unfold locks at h
    split at h
    · rw [List.mem_singleton.1 h]
      decide
    · cases h

end Switches

section Places

variable {k : Kernel.Interface} {w : World} {submodule submodule' file file' : String}

theorem Kernel.Interface.fileIn_inj :
    k.fileIn w submodule file = k.fileIn w submodule' file' ↔
      submodule = submodule' ∧ file = file' := by
  unfold fileIn
  simp

theorem Kernel.IsFree.placeOf_path (h : Kernel.IsFree submodule file) :
    Tree.placeOf w.workingPlace (k.path submodule file) = k.fileIn w submodule file :=
  k.placeOf_path _ h.1 h.2.1

theorem Kernel.IsFree.fileIn_ne (h : Kernel.IsFree submodule file) (k : Kernel.Interface)
    (w : World) (hfile : file' ∈ Kernel.loadFile :: World.account) :
    k.fileIn w Protection.name file' ≠ k.fileIn w submodule file := by
  rw [Ne, Kernel.Interface.fileIn_inj]
  rintro ⟨hsubmodule, rfl⟩
  exact h.2.2 hsubmodule.symm hfile

theorem Loader.placeOf_path_of_submodule (l : Loader) (w : World) (sm : Submodule) {file : String}
    (hfile : Path.IsName file) :
    Tree.placeOf w.workingPlace (l.kernel.path sm.name file) = l.kernel.fileIn w sm.name file := by
  cases sm
  exact l.kernel.placeOf_path _ (by decide) hfile

end Places

/-- What is written to set switches. -/
def Kernel.Interface.settings (k : Kernel.Interface) (switches : List ((String × String) × Bool)) :
    List (Path × Bytes) :=
  switches.map fun s => (k.path s.1.1 s.1.2, Kernel.switchContent s.2)

section Settings

variable {α : Type} (k : Kernel.Interface)

theorem Kernel.Interface.settings_append (a b : List ((String × String) × Bool)) :
    k.settings (a ++ b) = k.settings a ++ k.settings b := List.map_append

theorem Kernel.Interface.mem_settings {switches : List ((String × String) × Bool)}
    {e : Path × Bytes} : e ∈ k.settings switches ↔
      ∃ s ∈ switches, (k.path s.1.1 s.1.2, Kernel.switchContent s.2) = e := List.mem_map

theorem Kernel.Interface.settings_flatMap (f : α → List ((String × String) × Bool)) (as : List α) :
    k.settings (as.flatMap f) = as.flatMap fun a => k.settings (f a) := List.map_flatMap

end Settings

namespace Loader

section Plan

variable (l : Loader) (w : World) (refused : Files.Refusals) (force : Bool)

def draft (sm : Submodule) : Task (StateM World) Policy := do
  l.ensureUnlocked
  let options ← l.options
  let _ ← ExceptT.lift l.submodules
  l.compile sm options Kernel.Features.empty

def present : List Submodule :=
  Submodule.all.filter fun sm =>
    w.tree.at? w.workingPlace (l.kernel.directory sm.name) = some .directory

/-- The kernel says that it has a policy, and nobody insists that it is loaded again. -/
def isUpToDate (sm : Submodule) (p : Policy) : Bool :=
  !force && decide ((w.run (l.kernel.readFlag sm.name Kernel.digestFile)).1.toOption =
    some p.digest.hex)

def fate (sm : Submodule) (p : Policy) : Fate :=
  if l.isUpToDate w force sm p then .unchanged
  else if w.canWrite refused (l.kernel.path sm.name Kernel.loadFile) then .loaded
  else .failed

/-- What is written to load a policy. -/
def loads (sm : Submodule) (p : Policy) : List (Path × Bytes) :=
  if l.isUpToDate w force sm p then [] else [(l.kernel.path sm.name Kernel.loadFile, p.binary)]

/-- The submodules that the kernel has, each with its policy if that can be made. -/
def drafts : List (Submodule × Option Policy) :=
  (l.present w).map fun sm => (sm, (w.run (l.draft sm)).1.toOption)

def policies : List (Submodule × Policy) :=
  (l.drafts w).filterMap fun d => d.2.map (d.1, ·)

/-- What a load writes before it locks. -/
def plan (options : Options) : List (Path × Bytes) :=
  l.kernel.settings (options.early (l.present w)) ++
    (l.policies w).flatMap (fun d => l.loads w force d.1 d.2) ++
      l.kernel.settings (options.late (l.present w))

/-- What a load writes, the lock last. -/
def writes (options : Options) : List (Path × Bytes) :=
  l.plan w force options ++ l.kernel.settings options.locks

def report : LoadReport :=
  let fates := (l.policies w).map fun d => (d.1, l.fate w refused force d.1 d.2)
  { loaded := namesOf fates .loaded
    unchanged := namesOf fates .unchanged
    failed := ((l.drafts w).filter (·.2.isNone)).map (·.1.name) ++ namesOf fates .failed }

end Plan

/-! ## Reading where files cannot be written -/

/-- To read and to make policies no file needs to be written. -/
theorem prepare_refusing (l : Loader) (refused : Files.Refusals) :
    @prepare (StateM World) _ (World.refusing refused) l = l.prepare := (rfl)

theorem loadedDigest?_refusing (l : Loader) (refused : Files.Refusals)
    (sm : Submodule) :
    @loadedDigest? (StateM World) _ (World.refusing refused) l sm = l.loadedDigest? sm := by
  have hflag : @Kernel.Interface.readFlag (StateM World) _ (World.refusing refused) l.kernel =
      l.kernel.readFlag := rfl
  unfold loadedDigest?
  rw [hflag]

/-! ## Setting switches -/

section Switches

variable (l : Loader) (refused : Files.Refusals) (options : Options)

theorem does_trySwitch (submodule file : String) (value : Bool) :
    Does refused (l.trySwitch submodule file value)
      (l.kernel.settings [((submodule, file), value)]) := by
  intro w hw
  obtain ⟨r, w₁, hrun, htries, -⟩ :=
    (hw _ (List.mem_singleton_self _)).run_writeBytes refused (Kernel.switchContent value)
  change w.runRefusing refused (l.kernel.writeSwitch submodule file value) = (r, w₁) at hrun
  have hreported : ∃ x w₂,
      w.runRefusing refused (Task.orReport (l.kernel.writeSwitch submodule file value)) =
        (.ok x, w₂) ∧
      World.Tries refused (l.kernel.settings [((submodule, file), value)]) w w₂ := by
    rw [World.runRefusing_orReport, hrun]
    cases r with
    | ok u => exact ⟨_, _, rfl, htries⟩
    | error e => exact ⟨_, _, rfl, htries.report _⟩
  obtain ⟨x, w₂, hrun', htries'⟩ := hreported
  exact ⟨w₂, World.run_bind_of_ok hrun', htries'⟩

theorem does_if {t : [Host (StateM World)] → Task (StateM World) Unit}
    {switches : List ((String × String) × Bool)}
    (h : Does refused t (l.kernel.settings switches)) (condition : Bool) :
    Does refused (if condition then t else pure ())
      (l.kernel.settings (if condition then switches else [])) := by
  cases condition with
  | true => exact h
  | false => exact .pure

theorem does_switchOff (sm : Submodule) : Does refused (l.switchOff options sm)
    (l.kernel.settings (((sm.switches options).map fun s => ((sm.name, s.1), s.2)) ++
      if !sm.isEnabled options then [((sm.name, "enabled"), false)] else [])) := by
  have hswitch := fun s : String × Bool => does_trySwitch l refused sm.name s.1 s.2
  have hswitches := Does.forM hswitch (sm.switches options)
  have hoff := does_if l refused (does_trySwitch l refused sm.name "enabled" false)
    !sm.isEnabled options
  rw [Kernel.Interface.settings_append, List.map_eq_flatMap, Kernel.Interface.settings_flatMap]
  exact hswitches.bind fun _ => hoff

theorem does_switchOn (sm : Submodule) : Does refused (l.switchOn options sm)
    (l.kernel.settings (if sm.isEnabled options then [((sm.name, "enabled"), true)] else [])) :=
  does_if l refused (does_trySwitch l refused _ _ _) _

variable (present : List Submodule)

theorem does_early : Does refused ((if !options.main.enabled then
      l.trySwitch Kernel.mainDirectory "enabled" false else pure ()) >>= fun _ =>
        present.forM (l.switchOff options)) (l.kernel.settings (options.early present)) := by
  unfold Options.early
  rw [Kernel.Interface.settings_append, Kernel.Interface.settings_flatMap]
  exact (does_if l refused (does_trySwitch l refused _ _ _) _).bind fun _ =>
    Does.forM (does_switchOff l refused options) present

theorem does_late : Does refused ((if options.main.enabled then
      l.trySwitch Kernel.mainDirectory "enabled" true else pure ()) >>= fun _ =>
        present.forM (l.switchOn options)) (l.kernel.settings (options.late present)) := by
  unfold Options.late
  rw [Kernel.Interface.settings_append, Kernel.Interface.settings_flatMap]
  exact (does_if l refused (does_trySwitch l refused _ _ _) _).bind fun _ =>
    Does.forM (does_switchOn l refused options) present

end Switches

/-! ## Loading policies -/

theorem toOption_eq_some {ε α : Type} {r : Except ε α} {a : α} :
    r.toOption = some a ↔ r = .ok a := by
  cases r <;> simp [Except.toOption]

/-- No file changes by itself, and the kernel does nothing, or nothing unless a policy is loaded. -/
structure IsCalm (l : Loader) (w : World) : Prop where
  isStill : w.tree.IsStill
  behaviour : w.behaviour = .silent ∨ l.kernel.Reaches w ∧ w.HasAccountFiles

section Calm

variable {l : Loader} {w w' : World} {refused : Files.Refusals} {ws : List (Path × Bytes)}

theorem isCalm_of_isQuiet (h : w.IsQuiet) : l.IsCalm w := ⟨h.isStill, .inl h.silent⟩

theorem IsCalm.same (h : l.IsCalm w) (hw : w.SameFrame w') : l.IsCalm w' :=
  ⟨hw.isStill, h.behaviour.imp hw.behaviour.trans fun ⟨hk, haccount⟩ =>
    ⟨hk.same hw.toSamePlaces, hw.hasAccountFiles haccount⟩⟩

theorem IsCalm.tries (h : l.IsCalm w) (hw : World.Tries refused ws w w') : l.IsCalm w' :=
  h.same (hw.sameFrame h.isStill)

theorem IsCalm.ignores (h : l.IsCalm w) {switches : List ((String × String) × Bool)}
    (hfree : ∀ s ∈ switches, Kernel.IsFree s.1.1 s.1.2) :
    ∀ e ∈ l.kernel.settings switches, w.Ignores (Tree.placeOf w.workingPlace e.1) := by
  intro e he
  obtain ⟨s, hs, rfl⟩ := l.kernel.mem_settings.1 he
  refine h.behaviour.imp id fun ⟨hk, _⟩ => ⟨hk.behaviour, ?_⟩
  rw [hk.placeOf_path (hfree s hs).1 (hfree s hs).2.1]
  exact ((hfree s hs).fileOf_ne w List.mem_cons_self).symm

/-- What the kernel does when a policy is loaded changes no directory. -/
theorem IsCalm.sameFrame_react (h : l.IsCalm w) (q : Place) (c : Bytes) :
    w.SameFrame (w.react q c) := by
  rcases h.behaviour with hsilent | ⟨hk, haccount⟩
  · have hignores : w.Ignores q := .inl hsilent
    rw [hignores.react]
    exact .refl h.isStill
  · exact (World.refills_react hk.behaviour h.isStill haccount q c).toSameFrame

end Calm

section Install

variable {l : Loader} {w w' : World} {refused : Files.Refusals} {force : Bool}
  {sm : Submodule} {p : Policy}

/-- What becomes of a world when the policies that were made in a world are installed: those that
are not up to date are written, those that can be, and if one is loaded the kernel reacts. -/
inductive Installs (refused : Files.Refusals) (l : Loader) (made : World) (force : Bool)
    (ps : List (Submodule × Policy)) (w w' : World) : Prop
  | nothing (hfate : ∀ d ∈ ps, l.fate made refused force d.1 d.2 ≠ .loaded)
      (hw : World.Tries refused (ps.flatMap fun d => l.loads made force d.1 d.2) w w')
  | load {sm : Submodule} {p : Policy} {w₁ : World} (hps : ps = [(sm, p)])
      (hfate : l.fate made refused force sm p = .loaded)
      (hw : World.Tries refused (ps.flatMap fun d => l.loads made force d.1 d.2) w w₁)
      (hsame : w₁.SameFrame w')
      (htree : w'.tree = (w₁.react (l.kernel.fileIn w₁ sm.name Kernel.loadFile) p.binary).tree)

theorem Installs.report {made : World} {ps : List (Submodule × Policy)}
    (h : Installs refused l made force ps w w') (e : Event) :
    Installs refused l made force ps w { w' with events := e :: w'.events } := by
  cases h with
  | nothing hfate hw => exact .nothing hfate (hw.report e)
  | load hps hfate hw hsame htree =>
    exact .load hps hfate hw ⟨⟨hsame.workingPlace, hsame.kernelPlace, hsame.behaviour⟩,
      hsame.isStill, hsame.sameDirectories⟩ htree

theorem Installs.congr {made made' : World} {ps : List (Submodule × Policy)}
    (h : Installs refused l made force ps w w')
    (hfate : l.fate made refused force = l.fate made' refused force)
    (hloads : l.loads made force = l.loads made' force) :
    Installs refused l made' force ps w w' := by
  cases h with
  | nothing hnone hw => exact .nothing (hfate ▸ hnone) (hloads ▸ hw)
  | load hps hloaded hw hsame htree =>
    exact .load hps (hfate ▸ hloaded) (hloads ▸ hw) hsame htree

/-- What the kernel says about its policy is read, unless the policy is to be loaded anyhow. -/
theorem run_current (hw : w.tree.IsStill) (refused : Files.Refusals) (force : Bool)
    (sm : Submodule) (p : Policy) :
    ∃ current w₁, w.run (if force then pure none else l.loadedDigest? sm) = (.ok current, w₁) ∧
      World.Tries refused [] w w₁ ∧
        decide (current = some p.digest.hex) = l.isUpToDate w force sm p := by
  cases force with
  | true => exact ⟨none, w, rfl, .refl w, rfl⟩
  | false =>
    have hread : w.Rests (w.run (l.kernel.readFlag sm.name Kernel.digestFile)).2 :=
      Moves.readFlag (I := World.IsAt w.workingPlace) l.kernel sm.name Kernel.digestFile w rfl
    refine ⟨(w.run (l.kernel.readFlag sm.name Kernel.digestFile)).1.toOption, _, ?_,
      hread.tries hw, by rw [isUpToDate, Bool.not_false, Bool.true_and]⟩
    rw [if_neg Bool.false_ne_true, loadedDigest?, World.run_attempt]
    cases w.run (l.kernel.readFlag sm.name Kernel.digestFile) with
    | mk r w₁ => cases r <;> rfl

/-- A policy is written unless it is up to date. -/
theorem run_install (hw : l.IsCalm w) (refused : Files.Refusals) (force : Bool)
    (sm : Submodule) (p : Policy) :
    ∃ w', w.runRefusing refused (l.install force sm p) =
        (.ok (l.fate w refused force sm p), w') ∧
      Installs refused l w force [(sm, p)] w w' := by
  obtain ⟨current, w₁, hrun, htries, hup⟩ := run_current (l := l) hw.isStill refused force sm p
  have hreport : ∀ α, @Task.orReport (StateM World) _ (World.refusing refused) α =
      Task.orReport := fun _ => rfl
  have hloads : ∀ {w'}, World.Tries refused (l.loads w force sm p) w₁ w' →
      World.Tries refused ([(sm, p)].flatMap fun d => l.loads w force d.1 d.2) w w' := by
    intro w' hw'
    rw [List.flatMap_singleton]
    exact htries.trans hw'
  unfold loads at hloads
  dsimp only [World.runRefusing]
  rw [install_eq (H := World.refusing refused), loadedDigest?_refusing, World.run_bind_of_ok hrun]
  unfold fate
  cases h : l.isUpToDate w force sm p with
  | true =>
    rw [h] at hup hloads
    rw [if_pos (of_decide_eq_true hup)]
    exact ⟨_, rfl, (Installs.nothing (by simp [fate, h]) (hloads (.refl w₁))).report _⟩
  | false =>
    rw [h] at hup hloads
    rw [if_neg (of_decide_eq_false hup), World.run_bind, hreport, World.run_orReport]
    cases hcan : w.canWrite refused (l.kernel.path sm.name Kernel.loadFile) with
    | true =>
      have hcan₁ := (htries.canWrite _).trans hcan
      have hwrite := World.run_writeBytes_of_canWrite hcan₁ p.binary
      have hput := World.tries_of_canWrite hcan₁ p.binary
      rw [placeOf_path_of_submodule l w₁ sm (by decide)] at hwrite hput
      change w₁.run (@Kernel.Interface.load _ _ (World.refusing refused) l.kernel sm.name
        p.binary) = _ at hwrite
      rw [hwrite]
      exact ⟨_, rfl, (Installs.load rfl (by simp [fate, h, hcan]) (hloads hput)
        (((hw.tries htries).tries hput).sameFrame_react _ _) rfl).report _⟩
    | false =>
      have hcan₁ := (htries.canWrite _).trans hcan
      obtain ⟨fault, hwrite⟩ := World.run_writeBytes_of_not_canWrite hcan₁ p.binary
      change w₁.run (@Kernel.Interface.load _ _ (World.refusing refused) l.kernel sm.name
        p.binary) = _ at hwrite
      rw [hwrite]
      exact ⟨_, rfl, (Installs.nothing (by simp [fate, h, hcan])
        (hloads (World.tries_of_not_canWrite hcan₁ p.binary))).report _⟩

theorem isUpToDate_of_tries {ws : List (Path × Bytes)} (hw : w.tree.IsStill)
    (h : World.Tries refused ws w w')
    (hne : ∀ e ∈ ws, Tree.placeOf w.workingPlace (l.kernel.path sm.name Kernel.digestFile) ≠
      Tree.placeOf w.workingPlace e.1) :
    l.isUpToDate w' force sm p = l.isUpToDate w force sm p := by
  have hflag : ∀ flag, (w'.run (l.kernel.readFlag sm.name Kernel.digestFile)).1 = .ok flag ↔
      (w.run (l.kernel.readFlag sm.name Kernel.digestFile)).1 = .ok flag := by
    intro flag
    rw [Kernel.Interface.readFlag_eq_ok, Kernel.Interface.readFlag_eq_ok]
    simp only [h.content hw (l.kernel.endsInSlash_path (by decide)) hne]
  have hsame : (w'.run (l.kernel.readFlag sm.name Kernel.digestFile)).1.toOption =
      (w.run (l.kernel.readFlag sm.name Kernel.digestFile)).1.toOption :=
    Option.ext fun flag => by rw [toOption_eq_some, toOption_eq_some, hflag]
  unfold isUpToDate
  rw [hsame]

/-- A policy is made if it can be. A failure is only reported. -/
theorem run_drafts (w : World) (options : Options) {sms : List Submodule} (hsms : sms.length ≤ 1) :
    ∃ w', w.run (sms.mapM fun sm =>
        return (sm, ← Task.orReport (l.compile sm options Kernel.Features.empty))) =
      (.ok (sms.map fun sm =>
        (sm, (w.run (l.compile sm options Kernel.Features.empty)).1.toOption)), w') ∧
      w.Rests w' := by
  rcases sms with _ | ⟨sm, _ | ⟨sm', rest⟩⟩
  · exact ⟨w, rfl, AllowsReading.refl w⟩
  · have hread : w.Rests
        (w.run (Task.orReport (l.compile sm options Kernel.Features.empty))).2 :=
      Moves.run_orReport (I := World.IsAt w.workingPlace) (.compile l _ _ _) w rfl
    refine ⟨_, ?_, hread⟩
    rw [List.mapM_cons, List.mapM_nil]
    simp only [World.run_bind]
    rw [World.run_orReport_eq]
    rfl
  · simp at hsms

theorem run_installs (hw : l.IsCalm w) (refused : Files.Refusals) (force : Bool)
    {ps : List (Submodule × Policy)} (hps : ps.length ≤ 1) :
    ∃ w', w.runRefusing refused
          (ps.mapM fun (sm, policy) => return (sm, ← l.install force sm policy)) =
        (.ok (ps.map fun d => (d.1, l.fate w refused force d.1 d.2)), w') ∧
      Installs refused l w force ps w w' := by
  rcases ps with _ | ⟨d, _ | ⟨d', rest⟩⟩
  · exact ⟨w, rfl, .nothing (fun _ hd => nomatch hd) (.refl w)⟩
  · obtain ⟨w', hrun, hinstalls⟩ := run_install (l := l) hw refused force d.1 d.2
    dsimp only [World.runRefusing] at hrun ⊢
    refine ⟨w', ?_, hinstalls⟩
    rw [List.mapM_cons, List.mapM_nil]
    simp only [World.run_bind, hrun]
    rfl
  · simp at hps

theorem Installs.sameFrame {made : World} {ps : List (Submodule × Policy)}
    (h : Installs refused l made force ps w w') (hw : w.tree.IsStill) : w.SameFrame w' := by
  cases h with
  | nothing hfate htries => exact htries.sameFrame hw
  | load hps hfate htries hsame htree => exact (htries.sameFrame hw).trans hsame

/-- Installing policies is writing them where the kernel does nothing about it. -/
theorem Installs.tries {made : World} {ps : List (Submodule × Policy)}
    (h : Installs refused l made force ps w w') (hquiet : w.behaviour = .silent ∨
      ∀ d ∈ ps, l.fate made refused force d.1 d.2 ≠ .loaded) :
    World.Tries refused (ps.flatMap fun d => l.loads made force d.1 d.2) w w' := by
  cases h with
  | nothing hfate hw => exact hw
  | @load sm p w₁ hps hfate hw hsame htree =>
    subst hps
    have hsilent := hquiet.resolve_right fun hnone => hnone _ (List.mem_singleton_self _) hfate
    have hignores : w₁.Ignores (l.kernel.fileIn w₁ sm.name Kernel.loadFile) :=
      .inl (hw.behaviour.trans hsilent)
    rw [hignores.react] at htree
    exact ⟨hw.toSamePlaces.trans hsame.toSamePlaces, htree.trans hw.tree⟩

end Install

/-! ## The course of a load -/

section Course

variable {l : Loader} {w w' : World} {refused : Files.Refusals} {force : Bool}

theorem present_eq (l : Loader) (w : World) : l.present w = [] ∨ l.present w = Submodule.all := by
  unfold present Submodule.all
  rw [List.filter_cons]
  split
  · exact .inr rfl
  · exact .inl rfl

theorem length_present (l : Loader) (w : World) : (l.present w).length ≤ 1 := by
  rcases l.present_eq w with h | h <;> rw [h] <;> simp [Submodule.all]

theorem length_policies (l : Loader) (w : World) : (l.policies w).length ≤ 1 := by
  refine (List.length_filterMap_le _ _).trans ?_
  unfold drafts
  rw [List.length_map]
  exact length_present l w

theorem run_present (l : Loader) (w : World) :
    w.run (ExceptT.lift l.submodules) = (.ok (l.present w), w) := by
  have hrun : w.run (ExceptT.lift l.submodules) =
      (.ok (bif decide (w.tree.at? w.workingPlace (l.kernel.directory Protection.name) =
        some .directory) then [Submodule.protection] else []).reverse, w) := rfl
  have hpresent : l.present w = bif decide (w.tree.at? w.workingPlace
      (l.kernel.directory Protection.name) = some .directory) then [Submodule.protection] else [] :=
    rfl
  rw [hrun, hpresent]
  cases decide (w.tree.at? w.workingPlace (l.kernel.directory Protection.name) = some .directory)
  · rfl
  · rfl

/-- Which submodules there are depends on nothing but the directories. -/
theorem present_congr (l : Loader) (hplace : w'.workingPlace = w.workingPlace)
    (hdirs : w.tree.SameDirectories w'.tree) : l.present w' = l.present w := by
  refine List.filter_congr fun sm _ => decide_eq_decide.2 ?_
  have hslash : (l.kernel.directory sm.name).endsInSlash = false := by
    cases sm
    exact Path.endsInSlash_join _ (by decide)
  rw [hplace]
  exact Tree.at?_eq_directory_iff hdirs hslash

theorem present_of_rests (hw : w.tree.IsStill) (h : w.Rests w') : l.present w' = l.present w := by
  unfold present
  rw [h.tree hw, h.workingPlace]

theorem isFree_of_early {options : Options} {present : List Submodule}
    {s : (String × String) × Bool} (hs : s ∈ options.early present) :
    Kernel.IsFree s.1.1 s.1.2 :=
  Options.isFree (List.mem_append_left _
    ((options.early_late_perm present).subset (List.mem_append_left _ hs)))

theorem isFree_of_late {options : Options} {present : List Submodule}
    {s : (String × String) × Bool} (hs : s ∈ options.late present) :
    Kernel.IsFree s.1.1 s.1.2 :=
  Options.isFree (List.mem_append_left _
    ((options.early_late_perm present).subset (List.mem_append_right _ hs)))

theorem isFree_of_locks {options : Options} {s : (String × String) × Bool}
    (hs : s ∈ options.locks) : Kernel.IsFree s.1.1 s.1.2 :=
  Options.isFree (List.mem_append_right (options.configured []) hs)

theorem isUpToDate_of_early (hw : w.tree.IsStill) {options : Options}
    (h : World.Tries refused (l.kernel.settings (options.early (l.present w))) w w')
    (force : Bool) (sm : Submodule) (p : Policy) :
    l.isUpToDate w' force sm p = l.isUpToDate w force sm p := by
  refine isUpToDate_of_tries hw h fun e he heq => ?_
  obtain ⟨s, hs, rfl⟩ := l.kernel.mem_settings.1 he
  have hfree := isFree_of_early hs
  rw [placeOf_path_of_submodule l w sm (by decide), hfree.placeOf_path] at heq
  cases sm
  exact hfree.fileIn_ne l.kernel w (by decide) heq

/-- To read and to make policies changes no file. -/
theorem run_prepare (hw : w.tree.IsStill) (l : Loader) :
    (∃ e w', w.run l.prepare = (.error e, w') ∧ w.Rests w' ∧
      ((w.run l.ensureUnlocked).1 = .error e ∨
        (w.run l.ensureUnlocked).1 = .ok () ∧ (w.run l.options).1 = .error e)) ∨
    ∃ options w', (w.run l.ensureUnlocked).1 = .ok () ∧ (w.run l.options).1 = .ok options ∧
      w.run l.prepare = (.ok (options, l.present w, l.drafts w), w') ∧ w.Rests w' := by
  unfold prepare
  cases hunlocked : w.run l.ensureUnlocked with
  | mk r₁ w₁ =>
    have hrests₁ : w.Rests w₁ ∧ _ :=
      (Moves.ensureUnlocked l).of_run (I := World.IsAt w.workingPlace) rfl hunlocked
    cases r₁ with
    | error e => exact .inl ⟨e, w₁, World.run_bind_of_error hunlocked, hrests₁.1, .inl rfl⟩
    | ok u =>
      have hread : (w.run l.options).1 = (w₁.run l.options).1 := by
        refine readOptions_congr ?_
        rw [hrests₁.1.tree hw, hrests₁.1.workingPlace]
      rw [World.run_bind_of_ok hunlocked]
      cases hoptions : w₁.run l.options with
      | mk r₂ w₂ =>
        rw [hoptions] at hread
        have hrests₂ : w₁.Rests w₂ ∧ _ :=
          (Moves.readOptions l.configDirectory).of_run (I := World.IsAt w.workingPlace) hrests₁.2
            hoptions
        have hrests : w.Rests w₂ := AllowsReading.trans hrests₁.1 hrests₂.1
        cases r₂ with
        | error e =>
          exact .inl ⟨e, w₂, World.run_bind_of_error hoptions, hrests, .inr ⟨rfl, hread⟩⟩
        | ok options =>
          have hpresent := present_of_rests (l := l) hw hrests
          obtain ⟨w₃, hdrafts, hrests₃⟩ := run_drafts (l := l) w₂ options (length_present l w₂)
          have hmade : (l.present w₂).map (fun sm =>
              (sm, (w₂.run (l.compile sm options Kernel.Features.empty)).1.toOption)) =
                l.drafts w := by
            unfold drafts draft
            rw [hpresent]
            refine List.map_congr_left fun sm _ => ?_
            rw [World.run_bind_of_ok hunlocked, World.run_bind_of_ok hoptions,
              World.run_bind_of_ok (run_present l w₂)]
          rw [hmade] at hdrafts
          refine .inr ⟨options, w₃, rfl, hread, ?_, AllowsReading.trans hrests hrests₃⟩
          rw [World.run_bind_of_ok hoptions, World.run_bind_of_ok (run_present l w₂),
            World.run_bind_of_ok hdrafts, hpresent]
          rfl

/-- The course of a load that writes: switches are set, policies are installed, and other switches
are set, the lock last. -/
def Course (l : Loader) (w : World) (refused : Files.Refusals) (force : Bool) (options : Options)
    (w' : World) : Prop :=
  ∃ w₁ w₂, World.Tries refused (l.kernel.settings (options.early (l.present w))) w w₁ ∧
    Installs refused l w force (l.policies w) w₁ w₂ ∧
    World.Tries refused (l.kernel.settings (options.late (l.present w) ++ options.locks)) w₂ w'

theorem Course.sameFrame {options : Options} (h : l.Course w refused force options w')
    (hw : w.tree.IsStill) : w.SameFrame w' := by
  obtain ⟨w₁, w₂, hearly, hinstalls, hlate⟩ := h
  have hbefore := hearly.sameFrame hw
  have hinstalled := hbefore.trans (hinstalls.sameFrame hbefore.isStill)
  exact hinstalled.trans (hlate.sameFrame hinstalled.isStill)

theorem writes_eq (l : Loader) (w : World) (force : Bool) (options : Options) :
    l.writes w force options = l.kernel.settings (options.early (l.present w)) ++
      (l.policies w).flatMap (fun d => l.loads w force d.1 d.2) ++
        l.kernel.settings (options.late (l.present w) ++ options.locks) := by
  unfold writes plan
  rw [List.append_assoc, ← Kernel.Interface.settings_append]

/-- All that a load does where the kernel does nothing is to write. -/
theorem Course.tries {options : Options} (h : l.Course w refused force options w')
    (hquiet : w.behaviour = .silent ∨
      ∀ d ∈ l.policies w, l.fate w refused force d.1 d.2 ≠ .loaded) :
    World.Tries refused (l.writes w force options) w w' := by
  obtain ⟨w₁, w₂, hearly, hinstalls, hlate⟩ := h
  have hinstalled := hinstalls.tries (hquiet.imp_left hearly.behaviour.trans)
  rw [writes_eq]
  exact (hearly.trans hinstalled).trans hlate

/-- What was read and made is carried out: files are written as planned, and the lock is set
last. -/
theorem run_carryOut (hw : l.IsCalm w) (hread : World.Tries refused [] w w') (force : Bool)
    (options : Options) :
    ∃ w₁ w₂ w₃,
      World.Tries refused (l.kernel.settings (options.early (l.present w))) w w₁ ∧
      Installs refused l w force (l.policies w) w₁ w₂ ∧
      World.Tries refused (l.kernel.settings (options.late (l.present w))) w₂ w₃ ∧
      w'.runRefusing refused (l.carryOut force options (l.present w) (l.drafts w)) =
        w₃.runRefusing refused
          ((if options.main.locked then l.kernel.lock else pure ()) >>= fun _ =>
            pure (l.report w refused force)) := by
  obtain ⟨w₁, hoff, h₁⟩ := does_early l refused options (l.present w) w'
    ((hw.tries hread).ignores fun s => isFree_of_early)
  have hearly := hread.trans h₁
  have hcalm₁ := hw.tries hearly
  obtain ⟨w₂, hinstalls, h₂⟩ :=
    run_installs (l := l) hcalm₁ refused force (length_policies l w)
  have hcurrent : l.isUpToDate w₁ force = l.isUpToDate w force :=
    funext₂ fun sm p => isUpToDate_of_early hw.isStill hearly force sm p
  have hfate : l.fate w₁ refused force = l.fate w refused force := by
    funext sm p
    unfold fate
    rw [hcurrent, hearly.canWrite]
  rw [hfate] at hinstalls
  replace h₂ := h₂.congr hfate (funext₂ fun sm p => by unfold loads; rw [hcurrent])
  obtain ⟨w₃, hon, h₃⟩ := does_late l refused options (l.present w) w₂
    ((hcalm₁.same (h₂.sameFrame hcalm₁.isStill)).ignores fun s => isFree_of_late)
  refine ⟨w₁, w₂, w₃, hearly, h₂, h₃, ?_⟩
  dsimp only [World.runRefusing] at hoff hinstalls hon ⊢
  unfold carryOut
  rw [← bind_assoc, World.run_bind_of_ok hoff]
  refine (World.run_bind_of_ok hinstalls).trans ?_
  rw [← bind_assoc, World.run_bind_of_ok hon]
  rfl

/-- How a load ends when all but the lock is done: with its result, unless the options ask for a lock
that cannot be written. -/
inductive Ends (l : Loader) (w : World) (refused : Files.Refusals) (options : Options) {α : Type}
    (result : α) : Except Failure α → Prop
  | done (hcan : options.main.locked = true →
      w.canWrite refused (l.kernel.path Kernel.mainDirectory "locked") = true) :
      Ends l w refused options result (.ok result)
  | failed (hlocked : options.main.locked = true)
      (hcan : w.canWrite refused (l.kernel.path Kernel.mainDirectory "locked") = false)
      (fault : Files.Fault) : Ends l w refused options result
        (.error (.file .writing (l.kernel.path Kernel.mainDirectory "locked") fault))

/-- The lock is set last, if the options say so. Here a failure is one of the load. -/
theorem run_locks (hw : l.IsCalm w) (refused : Files.Refusals) (options : Options) :
    ∃ r w',
      w.runRefusing refused (if options.main.locked then l.kernel.lock else pure ()) = (r, w') ∧
      World.Tries refused (l.kernel.settings options.locks) w w' ∧
      l.Ends w refused options () r := by
  have hignores := hw.ignores fun s (hs : s ∈ options.locks) => isFree_of_locks hs
  unfold Options.locks at hignores ⊢
  cases hlocked : options.main.locked with
  | false =>
    refine ⟨.ok (), w, rfl, .refl w, .done fun h => ?_⟩
    rw [hlocked] at h
    cases h
  | true =>
    rw [if_pos hlocked] at hignores
    obtain ⟨r, w', hrun, htries, hok, herror⟩ :=
      (hignores _ (List.mem_singleton_self _)).run_writeBytes refused (Kernel.switchContent true)
    refine ⟨r, w', hrun, htries, ?_⟩
    cases hcan : w.canWrite refused (l.kernel.path Kernel.mainDirectory "locked") with
    | true =>
      rw [hok hcan]
      exact .done fun _ => hcan
    | false =>
      obtain ⟨fault, hfault⟩ := herror hcan
      rw [hfault]
      exact .failed hlocked hcan fault

/-- A load fails before it has written anything, or it takes its course. -/
theorem load_calm (hw : l.IsCalm w) (refused : Files.Refusals) (force : Bool) :
    (∃ e w', w.runRefusing refused (l.load force) = (.error e, w') ∧ w'.tree = w.tree ∧
      ((w.run l.ensureUnlocked).1 = .error e ∨
        (w.run l.ensureUnlocked).1 = .ok () ∧ (w.run l.options).1 = .error e)) ∨
    ∃ options r w', (w.run l.ensureUnlocked).1 = .ok () ∧ (w.run l.options).1 = .ok options ∧
      w.runRefusing refused (l.load force) = (r, w') ∧ l.Course w refused force options w' ∧
      l.Ends w refused options (l.report w refused force) r := by
  have hload : w.runRefusing refused (l.load force) =
      w.run (l.prepare >>= fun r =>
        @carryOut (StateM World) _ (World.refusing refused) l force r.1 r.2.1 r.2.2) := by
    rw [← prepare_refusing l refused]
    exact congrArg w.run (load_eq (H := World.refusing refused) l force)
  rw [hload]
  rcases run_prepare hw.isStill l with
    ⟨e, w₁, hrun, hrests, hwhy⟩ | ⟨options, w₁, hunlocked, hoptions, hrun, hrests⟩
  · exact .inl ⟨e, w₁, World.run_bind_of_error hrun, hrests.tree hw.isStill, hwhy⟩
  · have hread : World.Tries refused [] w w₁ := hrests.tries hw.isStill
    obtain ⟨w₂, w₃, w₄, hearly, hinstalls, hlate, hcarry⟩ :=
      run_carryOut (l := l) hw hread force options
    have hframe := (hearly.sameFrame hw.isStill).trans
      (hinstalls.sameFrame (hw.tries hearly).isStill)
    have hframe' := hframe.trans (hlate.sameFrame hframe.isStill)
    obtain ⟨r, w', hlock, hlocks, hr⟩ := run_locks (hw.same hframe') refused options
    have hcourse : l.Course w refused force options w' := by
      refine ⟨w₂, w₃, hearly, hinstalls, ?_⟩
      rw [Kernel.Interface.settings_append]
      exact hlate.trans hlocks
    dsimp only [World.runRefusing] at hcarry hlock
    rw [World.run_bind_of_ok hrun, hcarry]
    cases hr with
    | done hcan =>
      rw [World.canWrite_congr hframe'.toSamePlaces hframe'.sameDirectories] at hcan
      exact .inr ⟨options, _, w', hunlocked, hoptions, World.run_bind_of_ok hlock, hcourse,
        .done hcan⟩
    | failed hlocked hcan fault =>
      rw [World.canWrite_congr hframe'.toSamePlaces hframe'.sameDirectories] at hcan
      exact .inr ⟨options, _, w', hunlocked, hoptions, World.run_bind_of_error hlock, hcourse,
        .failed hlocked hcan fault⟩

/-- In a quiet world a load fails before it has written anything, or it writes what was planned. -/
theorem load_cases (hw : w.IsQuiet) (l : Loader) (refused : Files.Refusals)
    (force : Bool) :
    (∃ e w', w.runRefusing refused (l.load force) = (.error e, w') ∧ w'.tree = w.tree) ∨
    ∃ options r w', (w.run l.options).1 = .ok options ∧
      w.runRefusing refused (l.load force) = (r, w') ∧
      World.Tries refused (l.writes w force options) w w' ∧
      l.Ends w refused options (l.report w refused force) r := by
  rcases load_calm (isCalm_of_isQuiet (l := l) hw) refused force with
    ⟨e, w', hrun, htree, -⟩ | ⟨options, r, w', -, hoptions, hrun, hcourse, hr⟩
  · exact .inl ⟨e, w', hrun, htree⟩
  · exact .inr ⟨options, r, w', hoptions, hrun, hcourse.tries (.inl hw.silent), hr⟩

end Course

end Loader

end PathPolicy
