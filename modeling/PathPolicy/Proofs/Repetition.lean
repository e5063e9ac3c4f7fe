import PathPolicy.Proofs.Elsewhere
import PathPolicy.Proofs.SecondReadings

/-!
# Programs in two worlds

A program that has come to an end in one world may be run in another one. What it gives is the same
if it sees the same there, or if it cannot go on wherever it sees something else (`Repeats`). That
is shown once for every relation between the two worlds, and depends on nothing but single accesses
(`Sees`). Two relations are of interest: the worlds are the same but for one place
(`World.SameBut`), or the second one has a file more (`World.Adds`).
-/

namespace PathPolicy

open Files (Path Place Tree)

variable {α β γ : Type}

/-- What a program gives in a world, it gives in every related one in which it comes to an end, and
the worlds are related after that. If it is `sure`, it does come to an end. -/
def Repeats (A : World → World → Prop) (sure : Prop) (t : Task (StateM World) α) : Prop :=
  ∀ w v, A w v → ∀ a w', w.run t = (.ok a, w') →
    (sure → ∃ v', v.run t = (.ok a, v')) ∧ ∀ b v', v.run t = (.ok b, v') → b = a ∧ A w' v'

/-- A single access finds the same in related worlds, as far as `view` shows it, and changes
nothing. Unless it is `sure`, it may find a file on its way instead. -/
def Sees (A : World → World → Prop) (sure : Prop) (view : α → β)
    (s : StateM World (Except Files.Fault α)) : Prop :=
  ∀ w v, A w v → (s w).2 = w ∧ (s v).2 = v ∧
    ((s v).1.map view = (s w).1.map view ∨ ¬ sure ∧ (s v).1 = .error .notDirectory)

/-- A relation for which it does not matter what was reported. -/
class Unheard (A : World → World → Prop) : Prop where
  events : ∀ {w v}, A w v → ∀ es es', A { w with events := es } { v with events := es' }

namespace Repeats

variable {A : World → World → Prop} {sure : Prop}

protected theorem pure (a : α) : Repeats A sure (pure a) := by
  intro w v hA b w' h
  obtain ⟨hb, rfl⟩ := Prod.mk.inj h
  obtain rfl := Except.ok.inj hb
  refine ⟨fun _ => ⟨v, rfl⟩, fun c v' h' => ?_⟩
  obtain ⟨hc, rfl⟩ := Prod.mk.inj h'
  exact ⟨(Except.ok.inj hc).symm, hA⟩

protected theorem throw (e : Failure) : Repeats A sure (throw e : Task (StateM World) α) :=
  fun _ _ _ _ _ h => nomatch (Prod.mk.inj h).1

/-- The second part of a program may rely on what is known of the first one. -/
theorem bind_of {t : Task (StateM World) α} {f : α → Task (StateM World) β}
    (ht : Repeats A sure t)
    (hf : ∀ w v, A w v → ∀ a w', w.run t = (.ok a, w') → Repeats A sure (f a)) :
    Repeats A sure (t >>= f) := by
  intro w v hA b w' h
  obtain ⟨a, w₁, hfirst, hrest⟩ := World.run_bind_ok h
  obtain ⟨hends, hsame⟩ := ht w v hA a w₁ hfirst
  have hsecond := hf w v hA a w₁ hfirst
  refine ⟨fun hsure => ?_, fun c v' h' => ?_⟩
  · obtain ⟨v₁, hfirst'⟩ := hends hsure
    obtain ⟨v', hrest'⟩ := (hsecond w₁ v₁ (hsame a v₁ hfirst').2 b w' hrest).1 hsure
    exact ⟨v', (World.run_bind_of_ok hfirst').trans hrest'⟩
  · obtain ⟨a', v₁, hfirst', hrest'⟩ := World.run_bind_ok h'
    obtain ⟨rfl, hA₁⟩ := hsame a' v₁ hfirst'
    exact (hsecond w₁ v₁ hA₁ b w' hrest).2 c v' hrest'

protected theorem bind {t : Task (StateM World) α} {f : α → Task (StateM World) β}
    (ht : Repeats A sure t) (hf : ∀ a, Repeats A sure (f a)) : Repeats A sure (t >>= f) :=
  ht.bind_of fun _ _ _ a _ _ => hf a

theorem mapM {f : α → Task (StateM World) β} {as : List α}
    (hf : ∀ a ∈ as, Repeats A sure (f a)) : Repeats A sure (as.mapM f) := by
  induction as with
  | nil => exact .pure []
  | cons a rest ih =>
    obtain ⟨ha, hrest⟩ := List.forall_mem_cons.1 hf
    rw [List.mapM_cons]
    exact ha.bind fun _ => (ih hrest).bind fun _ => .pure _

theorem reportAll [Unheard A] (es : List Event) : Repeats A sure (Task.reportAll es) := by
  have hreport : ∀ e, Repeats A sure (Task.report e) := by
    intro e w v hA u w' h
    obtain ⟨-, rfl⟩ := Prod.mk.inj h
    refine ⟨fun _ => ⟨_, rfl⟩, fun u' v' h' => ?_⟩
    obtain ⟨-, rfl⟩ := Prod.mk.inj h'
    exact ⟨rfl, Unheard.events hA _ _⟩
  induction es with
  | nil => exact .pure _
  | cons e rest ih => exact (hreport e).bind fun _ => ih

theorem access {kind : Access} {path : Path} {s : StateM World (Except Files.Fault α)}
    (h : ∀ w v, A w v → ∀ a w', s w = (.ok a, w') → ∃ v', s v = (.ok a, v') ∧ A w' v') :
    Repeats A sure (Task.access kind path s) := by
  intro w v hA a w' hrun
  obtain ⟨v', hv, hA'⟩ := h w v hA a w' (World.run_access_ok hrun)
  rw [World.run_access, hv]
  refine ⟨fun _ => ⟨v', rfl⟩, fun b v₁ h' => ?_⟩
  obtain ⟨hb, rfl⟩ := Prod.mk.inj h'
  exact ⟨(Except.ok.inj hb).symm, hA'⟩

/-- What is made of what is seen is the same, if it is a failure to find a file on the way. -/
theorem of_sees {view : α → β} {s : StateM World (Except Files.Fault α)}
    {f : Except Files.Fault α → Task (StateM World) γ} (hs : Sees A sure view s)
    (hview : ∀ r r' : Except Files.Fault α, r.map view = r'.map view → f r = f r')
    (hthrow : ∃ e, f (.error .notDirectory) = throw e) (hf : ∀ r, Repeats A sure (f r)) :
    Repeats A sure (ExceptT.lift s >>= f) := by
  intro w v hA b w' h
  obtain ⟨hw, hv, hseen⟩ := hs w v hA
  rw [World.run_bind_of_ok World.run_lift, hw] at h
  rw [World.run_bind_of_ok World.run_lift, hv]
  rcases hseen with hsame | ⟨hunsure, hfault⟩
  · rw [hview _ _ hsame]
    exact hf _ w v hA b w' h
  · obtain ⟨e, he⟩ := hthrow
    rw [hfault, he]
    exact ⟨fun hsure => absurd hsure hunsure, fun _ _ h' => nomatch (Prod.mk.inj h').1⟩

end Repeats

/-! ## Reading the configuration -/

section Configuration

variable {A : World → World → Prop} {sure : Prop} [Unheard A] {directory path : Path}
  {submodule : String}

theorem Except.map_id_inj {r r' : Except Files.Fault α} (h : r.map id = r'.map id) : r = r' := by
  cases r <;> cases r' <;> cases h <;> rfl

theorem Sees.readOptions (h : Sees A sure id
      (Task.tryReadText (Path.join directory Config.mainFile) : StateM World _)) :
    Repeats A sure (Config.readOptions directory) := by
  unfold Config.readOptions
  refine Repeats.of_sees h (fun r r' hr => by rw [Except.map_id_inj hr]) ⟨_, rfl⟩ fun r => ?_
  split
  · split
    · exact .pure _
    · exact .throw _
  · exact (Repeats.reportAll [_]).bind fun _ => .pure _
  · exact .throw _

omit [Unheard A] in
theorem Sees.ruleFiles (h : Sees A sure (List.filter Path.hasConfExtension)
      (Host.listDirectory (Path.join directory (submodule ++ ".conf.d")) : StateM World _)) :
    Repeats A sure (Config.ruleFiles directory submodule) := by
  unfold Config.ruleFiles
  refine Repeats.of_sees h (fun r r' hr => ?_) ⟨_, rfl⟩ fun r => ?_
  · cases r <;> cases r'
    · obtain rfl := Except.error.inj hr
      rfl
    · cases hr
    · cases hr
    · dsimp only
      rw [Except.ok.inj hr]
  · split
    · exact .pure _
    · exact .pure _
    · exact .throw _

theorem Sees.readRuleFile (h : Sees A sure id (Task.tryReadText path : StateM World _)) :
    Repeats A sure (Config.readRuleFile path) := by
  unfold Config.readRuleFile
  refine Repeats.of_sees h (fun r r' hr => by rw [Except.map_id_inj hr]) ⟨_, rfl⟩ fun r => ?_
  split
  · exact (Repeats.reportAll _).bind fun _ => .pure _
  · exact .pure _
  · exact .throw _

theorem Config.mem_of_ruleFiles {w w' : World} {files : List Path}
    (h : w.run (Config.ruleFiles directory submodule) = (.ok files, w')) (hpath : path ∈ files) :
    path = Path.join directory (submodule ++ ".conf") ∨ ∃ names, ∃ name ∈ names,
      w.tree.list w.workingPlace (Path.join directory (submodule ++ ".conf.d")) = .ok names ∧
        Path.hasConfExtension name = true ∧
        path = Path.join (Path.join directory (submodule ++ ".conf.d")) name := by
  unfold Config.ruleFiles at h
  rw [World.run_bind_of_ok World.run_lift] at h
  dsimp only [Host.listDirectory] at h
  cases hlist : w.tree.list w.workingPlace (Path.join directory (submodule ++ ".conf.d")) with
  | error fault =>
    rw [hlist] at h
    cases fault with
    | notFound =>
      obtain rfl := Except.ok.inj (Prod.mk.inj h).1
      exact .inl (List.mem_singleton.1 hpath)
    | _ => cases h
  | ok names =>
    rw [hlist] at h
    obtain rfl := Except.ok.inj (Prod.mk.inj h).1
    rcases List.mem_cons.1 hpath with rfl | hpath
    · exact .inl rfl
    · obtain ⟨name, hname, rfl⟩ := List.mem_map.1 hpath
      obtain ⟨hmem, hconf⟩ := List.mem_filter.1 ((List.mergeSort_perm _ _).mem_iff.1 hname)
      exact .inr ⟨names, name, hmem, rfl, hconf, rfl⟩

theorem Sees.readRuleLines
    (hlist : Sees A sure (List.filter Path.hasConfExtension)
      (Host.listDirectory (Path.join directory (submodule ++ ".conf.d")) : StateM World _))
    (hfirst : Sees A sure id
      (Task.tryReadText (Path.join directory (submodule ++ ".conf")) : StateM World _))
    (hothers : ∀ w v, A w v → ∀ names,
      w.tree.list w.workingPlace (Path.join directory (submodule ++ ".conf.d")) = .ok names →
        ∀ name ∈ names, Path.hasConfExtension name = true → Sees A sure id (Task.tryReadText
          (Path.join (Path.join directory (submodule ++ ".conf.d")) name) : StateM World _)) :
    Repeats A sure (Config.readRuleLines directory submodule) := by
  unfold Config.readRuleLines
  refine hlist.ruleFiles.bind_of fun w v hA files w' hfiles => ?_
  refine (Repeats.mapM fun path hpath => Sees.readRuleFile ?_).bind fun _ => .pure _
  rcases Config.mem_of_ruleFiles hfiles hpath with rfl | ⟨names, name, hname, hnames, hconf, rfl⟩
  · exact hfirst
  · exact hothers w v hA names hnames name hname hconf

end Configuration

/-! ## Two relations -/

theorem World.tryReadText_snd {w : World} {path : Path}
    (h : ∀ first later,
      w.tree.get? (Tree.placeOf w.workingPlace path) ≠ some (.changing first later)) :
    ((Task.tryReadText path : StateM World _) w).2 = w := by
  rw [World.tryReadText_eq, Tree.read_eq h]
  cases w.tree.content w.workingPlace path <;> rfl

section Accesses

variable {A : World → World → Prop} {sure : Prop} {path : Path}

theorem sees_tryReadText
    (hstill : ∀ w v, A w v → ∀ first later,
      w.tree.get? (Tree.placeOf w.workingPlace path) ≠ some (.changing first later) ∧
        v.tree.get? (Tree.placeOf v.workingPlace path) ≠ some (.changing first later))
    (hcontent : ∀ w v, A w v →
      v.tree.content v.workingPlace path = w.tree.content w.workingPlace path ∨
        ¬ sure ∧ v.tree.content v.workingPlace path = .error .notDirectory) :
    Sees A sure id (Task.tryReadText path : StateM World _) := by
  intro w v hA
  refine ⟨World.tryReadText_snd fun first later => (hstill w v hA first later).1,
    World.tryReadText_snd fun first later => (hstill w v hA first later).2, ?_⟩
  rw [World.tryReadText_fst, World.tryReadText_fst]
  refine (hcontent w v hA).imp (fun h => ?_) (.imp_right fun h => ?_) <;> rw [h]

theorem sees_listDirectory {keep : String → Bool}
    (h : ∀ w v, A w v → (v.tree.list v.workingPlace path).map (List.filter keep) =
        (w.tree.list w.workingPlace path).map (List.filter keep) ∨
      ¬ sure ∧ v.tree.list v.workingPlace path = .error .notDirectory) :
    Sees A sure (List.filter keep) (Host.listDirectory path : StateM World _) :=
  fun w v hA => ⟨rfl, rfl, h w v hA⟩

end Accesses

namespace World

/-- Two worlds that are the same but for what is at a place and below it, and for their kernels. -/
structure SameBut (start p : Place) (w v : World) : Prop where
  workingPlace : w.workingPlace = start
  workingPlace' : v.workingPlace = start
  tree : Tree.SameBut p w.tree v.tree

/-- The second world has one file more, or another one. -/
structure Adds (start p : Place) (w v : World) : Prop where
  workingPlace : w.workingPlace = start
  workingPlace' : v.workingPlace = start
  isStill : w.tree.IsStill
  ne_directory : w.tree.get? p ≠ some .directory
  tree : ∃ c, v.tree = w.tree.put p (.file c)

variable {start p : Place} {sure : Prop} {path : Path}

instance : Unheard (SameBut start p) := ⟨fun h _ _ => ⟨h.workingPlace, h.workingPlace', h.tree⟩⟩

instance : Unheard (Adds start p) :=
  ⟨fun h _ _ => ⟨h.workingPlace, h.workingPlace', h.isStill, h.ne_directory, h.tree⟩⟩

theorem Adds.isStill_after {w v : World} (h : Adds start p w v) : v.tree.IsStill := by
  obtain ⟨c, htree⟩ := h.tree
  rw [htree]
  exact h.isStill.put (Tree.ne_nil_of_get?_ne h.ne_directory) c

/-- Files are the same if the way to them does not pass the place. -/
theorem SameBut.sees_text
    (hpath : ∀ q ∈ Tree.passed (Tree.origin start path) path.steps, ¬ p <+: q) :
    Sees (SameBut start p) sure id (Task.tryReadText path : StateM World _) := by
  refine sees_tryReadText (fun w v h first later => ?_) fun w v h => .inl ?_
  · have hplace := hpath _ (Tree.leadsTo_mem_passed _ _)
    rw [h.workingPlace, h.workingPlace']
    exact ⟨h.tree.isStill _ _ _, (h.tree.get?_eq hplace).symm ▸ h.tree.isStill _ _ _⟩
  · rw [h.workingPlace, h.workingPlace']
    exact Tree.content_congr (h.tree.resolve_eq hpath)

theorem SameBut.sees_names {keep : String → Bool}
    (hpath : ∀ q ∈ Tree.passed (Tree.origin start path) path.steps, ¬ p <+: q)
    (hplace : ¬ Tree.placeOf start path <+: p) :
    Sees (SameBut start p) sure (List.filter keep) (Host.listDirectory path : StateM World _) := by
  refine sees_listDirectory fun w v h => .inl ?_
  rw [h.workingPlace, h.workingPlace', h.tree.list_eq hpath hplace]

section Adds

variable {name : String} {c : Char} (hp : p.getLast? = some name)
  (hname : name.toList.getLast? ≠ some c) (hpath : path.toList.getLast? = some c)
  (hslash : c ≠ '/') (hdot : c ≠ '.')

include hp hname hpath hslash hdot

theorem placeOf_ne : Tree.placeOf start path ≠ p := by
  rintro rfl
  obtain ⟨last, hlast, hc⟩ := Tree.getLast?_placeOf hpath hslash hdot start
  rw [hp] at hlast
  rw [Option.some.inj hlast] at hname
  exact hname hc

theorem Adds.sees_text : Sees (Adds start p) False id (Task.tryReadText path : StateM World _) := by
  have hne : Tree.placeOf start path ≠ p := placeOf_ne hp hname hpath hslash hdot
  refine sees_tryReadText (fun w v h first later => ?_) fun w v h => ?_ <;>
    obtain ⟨content, htree⟩ := h.tree <;> rw [h.workingPlace, h.workingPlace', htree]
  · rw [Tree.get?_put_of_ne hne]
    exact ⟨h.isStill _ _ _, h.isStill _ _ _⟩
  · exact (Tree.content_put_file h.ne_directory hne).imp_right fun h => ⟨id, h⟩

theorem Adds.sees_names {keep : String → Bool} (hkeep : keep name = false) :
    Sees (Adds start p) False (List.filter keep) (Host.listDirectory path : StateM World _) := by
  have hne : Tree.placeOf start path ≠ p := placeOf_ne hp hname hpath hslash hdot
  refine sees_listDirectory fun w v h => ?_
  obtain ⟨content, htree⟩ := h.tree
  rw [h.workingPlace, h.workingPlace', htree]
  refine (Tree.list_put_file h.ne_directory hne fun last hlast => ?_).imp_right fun h => ⟨id, h⟩
  rw [hp] at hlast
  rw [← Option.some.inj hlast, hkeep]

end Adds

end World

end PathPolicy
