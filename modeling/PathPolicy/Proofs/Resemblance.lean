import PathPolicy.Proofs.Planning
import PathPolicy.Proofs.Repetition

/-!
# Worlds that look alike to a loader

Two worlds look alike to a loader (`Loader.Resembles`) if nothing is different but files that are
written when policies are loaded, if none of these is missing on the way to the configuration, and
if no image is told from another. Then every reading of the loader finds the same in both: options
and lines because their files have other names, flags and features because no load writes them, and
images because nothing but their traits matters to a policy (`Protection.result_compile_congr`). So
a policy that can be made in one of the worlds is made in the other one (`Resembles.draft`).
-/

namespace PathPolicy

open Files (Path Place Tree)

/-! ## What a policy depends on -/

namespace Protection

/-- Of an image nothing but its traits matters. -/
theorem Reader.read_congr_traits {r r' : Reader} (hsupport : r.support = r'.support)
    (habsolute : r.absolutePaths = r'.absolutePaths)
    (htraits : ∀ path, (r.inspector path).traits? = (r'.inspector path).traits?)
    (tokens : List String) : r.read tokens = r'.read tokens := by
  have htext : r.readText tokens = r'.readText tokens := by
    unfold readText
    rw [hsupport, habsolute]
  unfold read checkImage
  simp only [htext, htraits]

theorem Draft.look_eq (d : Draft) (r : Reader) (line : Config.Line) :
    ∃ events, d.look r line = { d with events } := by
  unfold look
  split
  · exact ⟨_, rfl⟩
  · exact ⟨d.events, rfl⟩

/-- Readers that read all lines alike make the same drafts, up to what is reported. -/
theorem collect_congr {r r' : Reader} (hread : ∀ tokens, r.read tokens = r'.read tokens)
    (strictness : Strictness) (d : Draft) (events : List Event) (lines : List Config.Line) :
    ∃ events', collect r' strictness { d with events } lines =
      ({ (collect r strictness d lines).1 with events := events' },
        (collect r strictness d lines).2) := by
  induction lines generalizing d events with
  | nil => exact ⟨events, rfl⟩
  | cons line rest ih =>
    have hrepeats : ({ d with events } : Draft).repeats line = d.repeats line := rfl
    unfold collect
    rw [hrepeats]
    cases d.repeats line with
    | true => exact ih (d.accept line) events
    | false =>
      obtain ⟨looked, hlook⟩ := d.look_eq r line
      obtain ⟨looked', hlook'⟩ := ({ d with events } : Draft).look_eq r' line
      rw [hlook, hlook', ← hread]
      simp only [Bool.false_eq_true, if_false]
      cases r.read line.tokens with
      | ok rule => exact ih (Draft.acceptRule { d with events := looked } line rule) looked'
      | error fault =>
        cases strictness with
        | strict => exact ⟨looked', rfl⟩
        | lenient => exact ih (Draft.skip { d with events := looked } _) _

/-- What lines give depends on nothing but how they are read. -/
theorem result_compile_congr {ctx ctx' : Context} (hstrict : ctx.strictness = ctx'.strictness)
    (hread : ∀ tokens, (Reader.ofContext ctx).read tokens = (Reader.ofContext ctx').read tokens)
    (lines : List Config.Line) : (compile lines ctx').result = (compile lines ctx).result := by
  obtain ⟨events, hcollect⟩ := collect_congr hread ctx.strictness Draft.empty [] lines
  unfold compile
  rw [← hstrict]
  change collect _ _ Draft.empty _ = _ at hcollect
  rw [hcollect]
  cases collect (Reader.ofContext ctx) ctx.strictness Draft.empty lines with
  | mk d e =>
    cases e with
    | some e => rfl
    | none =>
      unfold Draft.finish
      dsimp only
      cases Blob.encode d.rules.reverse (Digest.ofText (Config.textOf d.accepted.reverse)) <;> rfl

end Protection

/-! ## Ways that no load closes -/

/-- The way of a path does not lead through a file that is missing and may be made when policies are
loaded. -/
def World.IsAside (w : World) (path : Path) : Prop :=
  ∀ e ∈ World.loadedFiles,
    w.fileOf e.1 e.2 ∈ Tree.passed (Tree.origin w.workingPlace path) path.steps →
      w.tree.get? (w.fileOf e.1 e.2) ≠ none

instance (w : World) (path : Path) : Decidable (w.IsAside path) :=
  inferInstanceAs (Decidable (∀ e ∈ World.loadedFiles, _ → _))

section Aside

variable {w v : World} {path : Path} {name : String}

theorem World.IsAside.join (h : w.IsAside path) (hname : Path.IsName name)
    (hne : ∀ e ∈ World.loadedFiles,
      w.fileOf e.1 e.2 ≠ Tree.placeOf w.workingPlace path ++ [name]) :
    w.IsAside (Path.join path name) := by
  intro e he hpassed
  rcases Tree.mem_passed_join hname hpassed with hpassed | heq
  · exact h e he hpassed
  · exact absurd heq (hne e he)

theorem World.IsAside.of_tree (h : w.IsAside path) (hsame : w.SamePlaces v)
    (htree : v.tree = w.tree) : v.IsAside path := by
  intro e he
  rw [hsame.fileOf, hsame.workingPlace, htree]
  exact h e he

theorem World.fileOf_eq_concat (w : World) (submodule file : String) :
    w.fileOf submodule file = w.kernelPlace ++ [submodule] ++ [file] :=
  (List.append_assoc _ [submodule] [file]).symm

theorem World.fileOf_ne_concat {e : String × String} (hname : e.2 ≠ name) (q : Place) :
    w.fileOf e.1 e.2 ≠ q ++ [name] := by
  intro heq
  have hlast := congrArg List.getLast? heq
  rw [fileOf_eq_concat, List.getLast?_concat, List.getLast?_concat] at hlast
  exact hname (Option.some.inj hlast)

theorem World.directory_ne_concat {submodule : String} (hname : submodule ≠ name) (q : Place) :
    q ++ [name] ≠ w.kernelPlace ++ [submodule] := by
  intro heq
  have hlast := congrArg List.getLast? heq
  rw [List.getLast?_concat, List.getLast?_concat] at hlast
  exact hname (Option.some.inj hlast).symm

/-- A file that a load does not write is resolved alike: on the way to it, what was no directory is
none. -/
theorem World.Refills.resolve_join (h : w.Refills v) (hw : w.IsAside path) (hv : v.IsAside path)
    (hname : Path.IsName name) (hne : ∀ e ∈ World.loadedFiles,
      w.fileOf e.1 e.2 ≠ Tree.placeOf w.workingPlace path ++ [name]) :
    v.tree.resolve v.workingPlace (Path.join path name) =
      w.tree.resolve w.workingPlace (Path.join path name) := by
  have hw' := hw.join hname hne
  have hv' := hv.join hname fun e he => by
    rw [h.fileOf, h.workingPlace]
    exact hne e he
  rw [h.workingPlace]
  refine Tree.resolve_congr_of_blocks (fun q hq => ?_) ?_
  · by_cases hwritten : ∃ e ∈ World.loadedFiles, q = w.fileOf e.1 e.2
    · obtain ⟨e, he, rfl⟩ := hwritten
      have hnone := hw' e he hq
      have hnone' := hv' e he (by rwa [h.fileOf, h.workingPlace])
      rw [h.fileOf] at hnone'
      by_cases hdir : w.tree.get? (w.fileOf e.1 e.2) = some .directory
      · exact .inl (hdir.trans ((h.sameDirectories _).1 hdir).symm)
      · obtain ⟨n, hget⟩ := Option.ne_none_iff_exists'.1 hnone
        obtain ⟨n', hget'⟩ := Option.ne_none_iff_exists'.1 hnone'
        refine .inr ⟨⟨n, hget, fun hn => hdir (hn ▸ hget)⟩, n', hget', fun hn => hdir ?_⟩
        exact (h.sameDirectories _).2 (hn ▸ hget')
    · exact .inl (h.get?_eq q fun e he heq => hwritten ⟨e, he, heq⟩).symm
  · refine (h.get?_eq _ fun e he heq => ?_).symm
    rw [Tree.placeOf_join _ _ hname] at heq
    exact hne e he heq.symm

end Aside

/-! ## Worlds that look alike -/

namespace Loader

/-- Two worlds look alike to a loader. -/
structure Resembles (l : Loader) (w v : World) : Prop extends World.Refills w v where
  isStill_left : w.tree.IsStill
  reaches : l.kernel.Reaches w
  aside_left : w.IsAside l.configDirectory
  aside : v.IsAside l.configDirectory
  /-- Directories have the same names in them, but for those that files are written in. -/
  children : ∀ q, (∀ e ∈ World.loadedFiles, q ≠ w.kernelPlace ++ [e.1]) →
    v.tree.children q = w.tree.children q ∧ ∀ name ∈ w.tree.children q, Path.IsName name
  traits : ∀ paths path, (l.knows v paths path).traits? = (l.knows w paths path).traits?

namespace Resembles

variable {l : Loader} {w w' v v' : World} {path : Path} {sm : Submodule}

theorem symm (h : l.Resembles w v) : l.Resembles v w where
  toRefills := h.toRefills.symm h.isStill_left
  isStill_left := h.isStill
  reaches := h.reaches.same h.toSamePlaces
  aside_left := h.aside
  aside := h.aside_left
  children q hq := by
    rw [h.kernelPlace] at hq
    obtain ⟨hsame, hnames⟩ := h.children q hq
    exact ⟨hsame.symm, hsame ▸ hnames⟩
  traits paths path := (h.traits paths path).symm

theorem rests (h : l.Resembles w v) (hw : w.Rests w') (hv : v.Rests v') :
    l.Resembles w' v' := by
  have htree := hw.tree h.isStill_left
  have htree' := hv.tree h.isStill
  have hsame := (hw.toSamePlaces.symm.trans h.toSamePlaces).trans hv.toSamePlaces
  refine ⟨⟨⟨hsame, htree' ▸ h.isStill, ?_⟩, ?_⟩, htree ▸ h.isStill_left,
    h.reaches.same hw.toSamePlaces, h.aside_left.of_tree hw.toSamePlaces htree,
    h.aside.of_tree hv.toSamePlaces htree', ?_, ?_⟩
  · rw [htree, htree']
    exact h.sameDirectories
  · intro q hq
    rw [htree, htree']
    exact h.get?_eq q fun e he => by rw [← hw.fileOf]; exact hq e he
  · intro q hq
    rw [htree, htree']
    exact h.children q fun e he => by rw [← hw.kernelPlace]; exact hq e he
  · intro paths path
    rw [knows_congr htree hw.workingPlace, knows_congr htree' hv.workingPlace]
    exact h.traits paths path

instance : Unheard l.Resembles := ⟨fun h _ _ =>
  h.rests ⟨⟨rfl, rfl, rfl⟩, fun _ => rfl⟩ ⟨⟨rfl, rfl, rfl⟩, fun _ => rfl⟩⟩

/-- A program that only reads gives the same in worlds that look alike, if it does so as far as its
result goes. -/
theorem repeats {α : Type} {t : Task (StateM World) α}
    (ht : ∀ place, Moves (World.IsAt place) World.Rests t.run)
    (h : ∀ w v, l.Resembles w v → ∀ a, (w.run t).1 = .ok a → (v.run t).1 = .ok a) :
    Repeats l.Resembles True t := by
  intro w v hA a w' hrun
  have hv := World.run_of_fst (h w v hA a (congrArg Prod.fst hrun))
  refine ⟨fun _ => ⟨_, hv⟩, fun b v' hrun' => ?_⟩
  obtain ⟨hb, rfl⟩ := Prod.mk.inj (hrun'.symm.trans hv)
  exact ⟨Except.ok.inj hb, hA.rests ((ht _).of_run rfl hrun).1 ((ht _).of_run rfl hrun').1⟩

/-! ### Reading the configuration -/

theorem sees_text (hresolve : ∀ w v, l.Resembles w v →
      v.tree.resolve v.workingPlace path = w.tree.resolve w.workingPlace path) :
    Sees l.Resembles True id (Task.tryReadText path : StateM World _) := by
  refine sees_tryReadText (fun w v h first later => ?_) fun w v h => .inl ?_
  · exact ⟨h.isStill_left _ _ _, h.isStill _ _ _⟩
  · have hsame := hresolve w v h
    rw [h.workingPlace] at hsame ⊢
    exact Tree.content_congr hsame

/-- What the directory of the configuration has is resolved alike, if no load writes a file with
this name. -/
theorem resolve_join (h : l.Resembles w v) {name : String} (hname : Path.IsName name)
    (hother : ∀ e ∈ World.loadedFiles, e.2 ≠ name) :
    v.tree.resolve v.workingPlace (Path.join l.configDirectory name) =
      w.tree.resolve w.workingPlace (Path.join l.configDirectory name) :=
  h.toRefills.resolve_join h.aside_left h.aside hname fun e he =>
    World.fileOf_ne_concat (hother e he) _

theorem directory_ne (w : World) (l : Loader) : ∀ e ∈ World.loadedFiles,
    Tree.placeOf w.workingPlace (Path.join l.configDirectory (Protection.name ++ ".conf.d")) ≠
      w.kernelPlace ++ [e.1] := by
  intro e he
  rw [Tree.placeOf_join _ _ (by decide)]
  exact World.directory_ne_concat
    ((by decide : ∀ e ∈ World.loadedFiles, e.1 ≠ Protection.name ++ ".conf.d") e he) _

theorem resolve_rules (h : l.Resembles w v) {name : String} (hname : Path.IsName name) :
    v.tree.resolve v.workingPlace
        (Path.join (Path.join l.configDirectory (Protection.name ++ ".conf.d")) name) =
      w.tree.resolve w.workingPlace
        (Path.join (Path.join l.configDirectory (Protection.name ++ ".conf.d")) name) := by
  have hother : ∀ e ∈ World.loadedFiles, e.2 ≠ Protection.name ++ ".conf.d" := by decide
  refine h.toRefills.resolve_join
    (h.aside_left.join (by decide) fun e he => World.fileOf_ne_concat (hother e he) _)
    (h.aside.join (by decide) fun e he => World.fileOf_ne_concat (hother e he) _) hname
    fun e he heq => directory_ne w l e he ?_
  rw [World.fileOf_eq_concat] at heq
  exact (List.append_inj' heq rfl).1.symm

theorem sees_names {keep : String → Bool} :
    Sees l.Resembles True (List.filter keep) (Host.listDirectory
      (Path.join l.configDirectory (Protection.name ++ ".conf.d")) : StateM World _) := by
  refine sees_listDirectory fun w v h => .inl ?_
  have hresolve : v.tree.resolve v.workingPlace
      (Path.join l.configDirectory (Protection.name ++ ".conf.d")) = _ :=
    h.resolve_join (by decide) (by decide)
  have hchildren := (h.children _ (directory_ne w l)).1
  rw [h.workingPlace] at hresolve ⊢
  rw [Tree.list_congr hresolve hchildren]

theorem repeats_options : Repeats l.Resembles True l.options :=
  (sees_text fun _ _ h => h.resolve_join (by decide) (by decide)).readOptions

theorem repeats_lines :
    Repeats l.Resembles True (Config.readRuleLines l.configDirectory Protection.name) := by
  refine Sees.readRuleLines sees_names
    (sees_text fun _ _ h => h.resolve_join (by decide) (by decide))
    fun w v h names hlist name hname _ => ?_
  rw [Tree.list_eq_ok hlist] at hname
  have hisName := (h.children _ (directory_ne w l)).2 name hname
  exact sees_text fun _ _ h' => h'.resolve_rules hisName

/-! ### Making a policy -/

theorem readFlag_iff (h : l.Resembles w v) {flag : String} :
    (v.run (l.kernel.readFlag Protection.name Protection.emutrampFeature)).1 = .ok flag ↔
      (w.run (l.kernel.readFlag Protection.name Protection.emutrampFeature)).1 = .ok flag :=
  ⟨h.symm.toRefills.readFlag h.isStill h.symm.reaches (by decide) (by decide) (by decide),
    h.toRefills.readFlag h.isStill_left h.reaches (by decide) (by decide) (by decide)⟩

/-- Lines are read alike: neither what is supported nor what is known about images is different. -/
theorem read_eq (h : l.Resembles w v) {features features' : Kernel.Features}
    (hfeatures : features'.enabled Protection.name Protection.emutrampFeature =
      features.enabled Protection.name Protection.emutrampFeature)
    (options : Options) (strictness : Strictness) (paths : List Path) (tokens : List String) :
    (Protection.Reader.ofContext ⟨options, features, l.knows w paths, strictness⟩).read tokens =
      (Protection.Reader.ofContext ⟨options, features', l.knows v paths, strictness⟩).read
        tokens := by
  refine Protection.Reader.read_congr_traits ?support ?absolute ?traits tokens
  case absolute => rfl
  case support =>
    unfold Protection.Reader.ofContext
    rw [hfeatures]
  case traits => exact fun path => (h.traits paths path).symm

theorem repeats_compileLines (lines : List Config.Line) (options : Options) :
    Repeats l.Resembles True (l.compileLines .protection lines options Kernel.Features.empty) := by
  refine repeats (fun _ => .compileLines l _ _ _ _) fun w v h p hp => ?_
  obtain ⟨features, hctx, hon⟩ :=
    run_context h.reaches h.isStill_left (lines.map (·.tokens)) options l.strictness
  obtain ⟨features', hctx', hon'⟩ :=
    run_context h.symm.reaches h.isStill (lines.map (·.tokens)) options l.strictness
  obtain ⟨events, hrun⟩ := run_compileLines (World.run_of_fst hctx)
  obtain ⟨events', hrun'⟩ := run_compileLines (World.run_of_fst hctx')
  simp only [h.readFlag_iff, ← hon] at hon'
  rw [hrun] at hp
  rw [hrun', Protection.result_compile_congr (rfl : l.strictness = l.strictness)
    (h.read_eq (Bool.eq_iff_iff.2 hon') options l.strictness _) lines]
  exact hp

theorem present_eq (h : l.Resembles w v) : l.present v = l.present w :=
  l.present_congr h.workingPlace h.sameDirectories

theorem repeats_draft (sm : Submodule) : Repeats l.Resembles True (l.draft sm) := by
  have hunlocked : Repeats l.Resembles True l.ensureUnlocked :=
    repeats (fun _ => .ensureUnlocked l) fun _ _ h _ =>
      ensureUnlocked_again h.reaches h.isStill_left h.toRefills
  have hpresent : Repeats l.Resembles True (ExceptT.lift l.submodules) :=
    repeats (fun _ => .run_lift (.submodules l)) fun w v h _ hrun => by
      rw [run_present] at hrun ⊢
      rwa [h.present_eq]
  cases sm
  exact hunlocked.bind fun _ => repeats_options.bind fun options => hpresent.bind fun _ =>
    repeats_lines.bind fun lines => repeats_compileLines lines options

/-- What a policy is made of is the same, so the policy is. -/
theorem draft (h : l.Resembles w v) {p : Policy} :
    (v.run (l.draft sm)).1 = .ok p ↔ (w.run (l.draft sm)).1 = .ok p := by
  have himp : ∀ {w v : World}, l.Resembles w v → (w.run (l.draft sm)).1 = .ok p →
      (v.run (l.draft sm)).1 = .ok p := by
    intro w v h hrun
    obtain ⟨v', hrun'⟩ := (repeats_draft sm w v h p _ (World.run_of_fst hrun)).1 trivial
    exact congrArg Prod.fst hrun'
  exact ⟨himp h.symm, himp h⟩

theorem policies_eq (h : l.Resembles w v) : l.policies v = l.policies w := by
  unfold policies drafts
  rw [h.present_eq]
  refine congrArg _ (List.map_congr_left fun sm _ => ?_)
  rw [show (v.run (l.draft sm)).1.toOption = (w.run (l.draft sm)).1.toOption from
    Option.ext fun p => by rw [toOption_eq_some, toOption_eq_some, h.draft]]

end Resembles

end Loader

end PathPolicy
