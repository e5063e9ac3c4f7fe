import PathPolicy.Proofs.Attributes
import PathPolicy.Proofs.SelfTest
import PathPolicy.Proofs.Strictness
import PathPolicy.Proofs.Variants

/-!
# Variants that are written only in part

The second variant of a policy is made after the first one was written. If it cannot be made or
written, the first file is left behind, beside the second file of an earlier time if there was one
(`Loader.olderOutput_mixed`). If writing fails before that, no file has changed
(`Loader.configToFile_error`).

That there is the first policy and not the second one has one reason, once the configuration was
read: a line is a rule with emulated trampolines only (`Protection.compile_of_loses`). Its columns
are read without them too, so it is refused for its program, which has an executable stack.
-/

namespace PathPolicy

open Config (Line)
open Files (Path Place Tree)

/-! ## What is refused without trampolines only -/

namespace Protection

section Images

variable {f g : Flags} {inspector : Image.Inspector} {path : String} {fault : Fault}

/-- A word that restricts nothing breaks no program. -/
theorem checkTraits_transfer (f : Flags) (traits : Image.Traits) :
    checkTraits ⟨f.bits &&& Flags.transfer.bits⟩ traits = .ok () := by
  have hlacks : ∀ {m : Flags} {i : Nat}, m.has i = true → Flags.transfer.has i = false →
      (Flags.mk (f.bits &&& Flags.transfer.bits)).contains m = false := by
    intro m i hm ht
    rw [Bool.eq_false_iff, ne_eq, Flags.contains_iff]
    intro h
    have hi := h i hm
    rw [Flags.has_and, ht, Bool.and_false] at hi
    cases hi
  unfold checkTraits
  rw [hlacks (m := Flags.wxorx) (i := 3) rfl rfl, hlacks (m := Flags.mmap) (i := 6) rfl rfl]
  rfl

/-- Without emulated trampolines, a word that broke no program breaks those with an executable
stack at most. -/
theorem checkTraits_without {traits : Image.Traits}
    (hf : checkTraits f traits = .ok ())
    (hg : checkTraits (f.without Flags.emutramp) traits = .error fault) :
    fault = .executableStack ∧ traits.execStack = true := by
  unfold checkTraits at hf hg
  rw [Flags.contains_without (m := Flags.wxorx) rfl,
    Flags.contains_without (m := Flags.mmap) rfl] at hg
  split at hg
  · rename_i hstack
    simp only [Bool.and_eq_true] at hstack
    exact ⟨(Except.error.inj hg).symm, hstack.2⟩
  · split at hf
    · cases hf
    · rw [hf] at hg
      cases hg

theorem checkImage_eq_error (h : checkImage inspector path g = .error fault) :
    needsImage g = true ∧ ∃ traits, (inspector path).traits? = some traits ∧
      checkTraits g traits = .error fault := by
  unfold checkImage at h
  split at h
  · split at h
    · exact ⟨‹_›, _, ‹_›, h⟩
    · cases h
  · cases h

/-- Without emulated trampolines, a program can only be broken by its executable stack. -/
theorem checkImage_degrades (hfg : f.Degrades g) (hf : checkImage inspector path f = .ok ())
    (hg : checkImage inspector path g = .error fault) :
    fault = .executableStack ∧ f.meets Flags.emutramp = true ∧
      ∃ traits, (inspector path).traits? = some traits ∧ traits.execStack = true := by
  obtain ⟨hneeds, traits, htraits, hcheck⟩ := checkImage_eq_error hg
  cases hem : f.meets Flags.emutramp with
  | false =>
    rw [← hfg.same hem, hg] at hf
    cases hf
  | true =>
    rcases hfg.less hem with rfl | rfl
    · have hneeds' : needsImage f = true := by
        unfold needsImage at hneeds ⊢
        rwa [Flags.contains_without (m := Flags.complain) rfl] at hneeds
      unfold checkImage at hf
      rw [if_pos hneeds', htraits] at hf
      obtain ⟨hfault, hstack⟩ := checkTraits_without hf hcheck
      exact ⟨hfault, rfl, traits, htraits, hstack⟩
    · rw [checkTraits_transfer] at hcheck
      cases hcheck

end Images

namespace Reader

/-- The first reader is for a kernel that emulates trampolines, the second one for a kernel that
does not, and knows no more about images. -/
structure Loses (r r' : Reader) : Prop where
  support : r.support = ⟨true, r.support.fallback⟩
  support' : r'.support = ⟨false, r.support.fallback⟩
  absolutePaths : r'.absolutePaths = r.absolutePaths
  traits : ∀ path, (r'.inspector path).traits? = none ∨
    (r'.inspector path).traits? = (r.inspector path).traits?

/-- A line is a rule for a program with an executable stack, and asks for the emulated trampolines
that allow for it. -/
def NeedsTrampolines (r : Reader) (line : Line) : Prop :=
  ∃ rule traits, r.read line.tokens = .ok rule ∧ rule.exact = true ∧
    rule.flags.meets Flags.emutramp = true ∧ (r.inspector rule.path).traits? = some traits ∧
      traits.execStack = true

variable {r r' : Reader} {tokens : List String} {rule : Rule} {fault : Fault}

/-- Without regard to its program, a line is a rule without trampolines if it is one with them. -/
theorem Loses.readText (h : r.Loses r') (hread : r.readText tokens = .ok rule) :
    ∃ flags, r'.readText tokens = .ok { rule with flags } ∧ rule.flags.Degrades flags := by
  cases tokens with
  | nil => cases hread
  | cons word columns =>
    obtain ⟨hne, hsplit, hsize, habsolute, hflags⟩ := readText_cons_eq_ok.1 hread
    rw [h.support] at hflags
    obtain ⟨⟨flags, hflags'⟩, -⟩ :=
      (Flags.exists_parse_available_iff columns r.support.fallback).1 ⟨_, hflags⟩
    refine ⟨flags, readText_cons_eq_ok.2 ⟨hne, hsplit, hsize, ?_, ?_⟩,
      Flags.parse_degrades hflags hflags'⟩
    · rwa [h.absolutePaths]
    · rw [h.support']
      exact hflags'

theorem checkImage_of_read (htext : r.readText tokens = .ok rule)
    (h : r.read tokens = .error fault) :
    rule.exact = true ∧ checkImage r.inspector rule.path rule.flags = .error fault := by
  have hexact : rule.exact = true := by
    by_contra hnot
    rw [read_eq_ok.2 ⟨htext, fun hexact => absurd hexact hnot⟩] at h
    cases h
  refine ⟨hexact, ?_⟩
  cases hcheck : checkImage r.inspector rule.path rule.flags with
  | ok =>
    rw [read_eq_ok.2 ⟨htext, fun _ => hcheck⟩] at h
    cases h
  | error fault' =>
    unfold Reader.read at h
    simp only [htext, bind, Except.bind, hexact, if_true, hcheck] at h
    rw [Except.error.inj h]

/-- A rule that is none without trampolines is one for a program with an executable stack. -/
theorem Loses.read {line : Line} (h : r.Loses r') (hread : r.read line.tokens = .ok rule)
    (hread' : r'.read line.tokens = .error fault) :
    fault = .executableStack ∧ r.NeedsTrampolines line := by
  obtain ⟨htext, himage⟩ := read_eq_ok.1 hread
  obtain ⟨flags, htext', hdegrades⟩ := h.readText htext
  obtain ⟨hexact, hcheck⟩ := checkImage_of_read htext' hread'
  have hsame : (r'.inspector rule.path).traits? = (r.inspector rule.path).traits? := by
    refine (h.traits rule.path).resolve_left fun hnone => ?_
    rw [checkImage_of_unknown hnone] at hcheck
    cases hcheck
  rw [checkImage_congr hsame] at hcheck
  obtain ⟨hfault, hmeets, traits, htraits, hstack⟩ :=
    checkImage_degrades hdegrades (himage hexact) hcheck
  exact ⟨hfault, rule, traits, hread, hexact, hmeets, htraits, hstack⟩

theorem exists_of_refusedAfter {before lines : List Line} {line : Line}
    (h : r.refusedAfter before lines = some line) :
    ∃ front back, lines = front ++ line :: back ∧ r.refusedAfter before front = none ∧
      ¬ r.accepts (before ++ front) line = true := by
  induction lines generalizing before with
  | nil => cases h
  | cons a rest ih =>
    unfold refusedAfter at h
    split at h
    · rename_i ha
      obtain ⟨front, back, rfl, hfront, hline⟩ := ih h
      refine ⟨a :: front, back, rfl, ?_, ?_⟩
      · rw [refusedAfter, if_pos ha, hfront]
      · rwa [List.append_assoc] at hline
    · rename_i ha
      obtain rfl := Option.some.inj h
      exact ⟨[], rest, rfl, rfl, by rwa [List.append_nil]⟩

/-- A line that only one of two readers refuses is a rule for the other one. It cannot be accepted
for the sake of an earlier line, since that one was accepted by both. -/
theorem isRule_of_refused? {lines : List Line} {line : Line} (hr : r.refused? lines = none)
    (hr' : r'.refused? lines = some line) : line ∈ lines ∧ r.isRule line = true := by
  obtain ⟨front, back, rfl, hfront, hline⟩ := exists_of_refusedAfter hr'
  refine ⟨List.mem_append_right _ List.mem_cons_self, ?_⟩
  have haccepts : r.accepts front line = true := by
    unfold refused? at hr
    rw [refusedAfter_append, Option.or_eq_none_iff, List.nil_append, refusedAfter] at hr
    by_contra hnot
    rw [if_neg hnot] at hr
    cases hr.2
  refine (accepts_iff.1 haccepts).resolve_left ?_
  rintro ⟨a, ha, hhead, -⟩
  rw [← acceptedAfter_eq_self hfront] at ha
  obtain ⟨b, hb, hhead', hrule⟩ := exists_rule_of_mem_acceptedAfter ha
  exact hline (accepts_iff.2 (.inl ⟨b, hb, hhead'.trans hhead, hrule⟩))

end Reader

/-- Lines that give a policy with trampolines give one without them as well, unless one of them is a
rule that needs them. -/
theorem compile_of_loses {lines : List Line} {ctx ctx' : Context} {p : Policy} {e : ConfigError}
    (h : (Reader.ofContext ctx).Loses (Reader.ofContext ctx'))
    (hstrictness : ctx'.strictness = ctx.strictness) (hp : (compile lines ctx).result = .ok p)
    (he : (compile lines ctx').result = .error e) : ctx.strictness = .strict ∧
      ∃ line ∈ lines, (Reader.ofContext ctx).NeedsTrampolines line ∧
        e = lineError line.location .executableStack := by
  rcases outcome_compile lines ctx' with
    ⟨d, hd, -, hresult, -⟩ | ⟨hstrict, line, fault, hrefused, hread', herror⟩
  · rw [hresult, hd.finish_eq_ok] at he
    cases he
  rw [hstrictness] at hstrict
  refine ⟨hstrict, ?_⟩
  rcases outcome_compile lines ctx with ⟨-, -, -, -, hnone⟩ | ⟨-, line', fault', -, -, herror'⟩
  · obtain ⟨hline, hrule⟩ := Reader.isRule_of_refused? (hnone hstrict) hrefused
    obtain ⟨rule, hread⟩ := Reader.isRule_iff.1 hrule
    obtain ⟨rfl, hneeds⟩ := h.read hread hread'
    rw [herror] at he
    exact ⟨line, hline, hneeds, (Except.error.inj he).symm⟩
  · rw [herror'] at hp
    cases hp

theorem head?_of_compile {lines : List Line} {ctx : Context} {p : Policy}
    (h : (compile lines ctx).result = .ok p) : p.binary.head? = some 0x53 := by
  obtain ⟨d, -, rfl⟩ := draft_of_compile h
  rfl

end Protection

namespace World

variable {w v : World} {q : Place} {c : Bytes}

/-- No image appears where a file is written that is none. -/
theorem traits_of_put (hplace : v.workingPlace = w.workingPlace)
    (htree : v.tree = w.tree.put q (.file c)) (hfree : w.tree.get? q ≠ some .directory)
    (hc : c.head? ≠ some 0x7f) (path : Path) :
    (v.inspection path).traits? = none ∨
      (v.inspection path).traits? = (w.inspection path).traits? := by
  refine traits_of_image hplace ?_ (fun r c' hget hc' => ?_) path
  · rw [htree]
    exact Tree.sameDirectories_put hfree c
  · rw [htree] at hget
    by_cases hr : r = q
    · subst hr
      rw [Tree.get?_put_file hfree] at hget
      obtain rfl := Files.Node.file.inj (Option.some.inj hget)
      exact absurd hc' hc
    · rwa [Tree.get?_put_of_ne hr] at hget

def withDirectory (w : World) (path : Path) : World :=
  { w with tree := (w.tree.createDirectories w.workingPlace path).2 }

theorem withDirectory_grows (w : World) (path : Path) :
    w.tree.Grows (fun _ => True) (w.withDirectory path).tree :=
  Tree.createDirectories_grows.mono fun _ _ => trivial

theorem run_createDirectories (path : Path) :
    w.run (Task.access .creating path (Host.createDirectories path)) =
      ((w.tree.createDirectories w.workingPlace path).1.mapError (.file .creating path),
        w.withDirectory path) := by
  have hhost : (Host.createDirectories path : StateM World _) w =
      ((w.tree.createDirectories w.workingPlace path).1, w.withDirectory path) := rfl
  rw [run_access, hhost]
  cases (w.tree.createDirectories w.workingPlace path).1 <;> rfl

end World

namespace Loader

variable {l : Loader} {w w' v : World} {directory : Path} {lines : List Config.Line}
  {options : Options} {e : Failure}

/-! ## One variant -/

/-- The readers of the two variants, if no file has become an image in the meantime. -/
theorem loses_given (himage : ∀ path, (v.inspection path).traits? = none ∨
      (v.inspection path).traits? = (w.inspection path).traits?) :
    (Protection.Reader.ofContext (l.given w lines options (variantFeatures true))).Loses
      (Protection.Reader.ofContext (l.given v lines options (variantFeatures false))) where
  support := rfl
  support' := rfl
  absolutePaths := rfl
  traits := knows_again l himage (List.Subset.refl _)

/-- If there is no policy, the configuration cannot be read, or its lines give none. -/
theorem run_variant_error {available : Bool}
    (h : w.run (l.variant available) = (.error e, w')) :
    w.run l.configuration = (.error e, w') ∨ ∃ options lines r fault,
      w.run l.configuration = (.ok (options, lines), r) ∧
        (Protection.compile lines
          (l.given r lines options (variantFeatures available))).result = .error fault ∧
        e = .config fault := by
  refine (World.run_bind_error h).imp_right ?_
  rintro ⟨⟨options, lines⟩, r, hread, hcompile⟩
  obtain ⟨events, hrun⟩ :=
    @run_compileLines_given l r lines options _ (decides_variantFeatures available)
  rw [hrun] at hcompile
  obtain ⟨herror, -⟩ := Prod.mk.inj hcompile
  cases hresult : (Protection.compile lines
      (l.given r lines options (variantFeatures available))).result with
  | ok p =>
    rw [hresult] at herror
    cases herror
  | error fault =>
    rw [hresult] at herror
    exact ⟨options, lines, r, fault, hread, hresult, (Except.error.inj herror).symm⟩

theorem variant_rests (hstill : w.tree.IsStill) {available : Bool} {r : Except Failure Policy}
    (h : w.run (l.variant available) = (r, w')) :
    w'.workingPlace = w.workingPlace ∧ w'.tree = w.tree :=
  tree_of_moves (.run_bind (configuration_moves l) fun _ => .compileLines l _ _ _ _) hstill h

/-- A variant that is not written leaves the files as they were. -/
theorem run_writeVariant_error (hstill : w.tree.IsStill) {available : Bool}
    (h : w.run (l.writeVariant directory available) = (.error e, w')) :
    w'.workingPlace = w.workingPlace ∧ w'.tree = w.tree ∧
      (w.run (l.variant available) = (.error e, w') ∨
        ∃ fault, e = .file .writing (variantFile directory available) fault) := by
  rw [writeVariant_eq] at h
  rcases World.run_bind_error h with hvariant | ⟨policy, w₁, hvariant, h⟩
  · obtain ⟨hplace, htree⟩ := variant_rests hstill hvariant
    exact ⟨hplace, htree, .inl hvariant⟩
  · obtain ⟨hplace, htree⟩ := variant_rests hstill hvariant
    rcases World.run_bind_error h with hwrite | ⟨u, w₂, -, hend⟩
    · unfold Task.writeBytes at hwrite
      rw [World.run_access] at hwrite
      rcases World.writeFile_cases w₁ (variantFile directory available) policy.binary with
        ⟨hok, -⟩ | ⟨fault, herror⟩
      · rw [hok] at hwrite
        cases hwrite
      · rw [herror] at hwrite
        obtain ⟨he, rfl⟩ := Prod.mk.inj hwrite
        exact ⟨hplace, htree, .inr ⟨fault, (Except.error.inj he).symm⟩⟩
    · cases hend

/-! ## Both variants -/

/-- Why nothing is written, where `w` is the world in which the configuration is read first. -/
inductive StopsEarly (l : Loader) (directory : Path) (w : World) : Failure → Prop
  /-- The directory cannot be made. -/
  | directory (fault : Files.Fault) : StopsEarly l directory w (.file .creating directory fault)
  /-- There is no policy for a kernel that emulates trampolines. -/
  | variant {e : Failure} {w' : World} (h : w.run (l.variant true) = (.error e, w')) :
    StopsEarly l directory w e
  /-- The first file cannot be written. -/
  | file (fault : Files.Fault) :
    StopsEarly l directory w (.file .writing (variantFile directory true) fault)

/-- Why the second file is not written, where `w` is the world after the first one was, and `lines`
were read with `r` to make that one. -/
inductive StopsLate (l : Loader) (directory : Path) (w : World) (lines : List Config.Line)
    (r : Protection.Reader) : Failure → Prop
  /-- The second file cannot be written. -/
  | file (fault : Files.Fault) :
    StopsLate l directory w lines r (.file .writing (variantFile directory false) fault)
  /-- The configuration cannot be read any more. -/
  | configuration {e : Failure} {v v' : World} (hplace : v.workingPlace = w.workingPlace)
    (htree : v.tree = w.tree) (h : v.run l.configuration = (.error e, v')) :
    StopsLate l directory w lines r e
  /-- A program has an executable stack, which only emulated trampolines allow for. -/
  | stack {line : Config.Line} (hstrict : l.strictness = .strict) (hline : line ∈ lines)
    (hneeds : r.NeedsTrampolines line) :
    StopsLate l directory w lines r (.config (Protection.lineError line.location .executableStack))

/-- The first file was written and the second one was not. -/
def LeavesHalf (l : Loader) (directory : Path) (w w' : World) (e : Failure) : Prop :=
  ∃ options lines r p, w.run l.configuration = (.ok (options, lines), r) ∧
    (Protection.compile lines (l.given r lines options (variantFeatures true))).result = .ok p ∧
    w'.tree = w.tree.put (Tree.placeOf w.workingPlace (variantFile directory true))
      (.file p.binary) ∧
    l.StopsLate directory w' lines
      (Protection.Reader.ofContext (l.given r lines options (variantFeatures true))) e

/-- If there is no second policy although the configuration was read, then because of a program with
an executable stack. -/
theorem stopsLate_of_variant {r : World} {p : Policy}
    (hread : w.run l.configuration = (.ok (options, lines), r))
    (hp : (Protection.compile lines (l.given r lines options (variantFeatures true))).result =
      .ok p)
    (hadds : World.Adds w.workingPlace
      (Tree.placeOf w.workingPlace (variantFile directory true)) w v)
    (htree : v.tree = w.tree.put (Tree.placeOf w.workingPlace (variantFile directory true))
      (.file p.binary))
    (h : v.run (l.variant false) = (.error e, w')) :
    l.StopsLate directory w' lines
      (Protection.Reader.ofContext (l.given r lines options (variantFeatures true))) e := by
  obtain ⟨hplace', htree'⟩ := variant_rests hadds.isStill_after h
  rcases run_variant_error h with hunread | ⟨options', lines', r', fault, hread', hp', rfl⟩
  · exact .configuration hplace'.symm htree'.symm hunread
  obtain ⟨hsame, -⟩ :=
    (repeats_configuration l _ directory true w v hadds _ r hread).2 _ r' hread'
  obtain ⟨rfl, rfl⟩ := Prod.mk.inj hsame
  -- The file that was written is no image, so the same images are found as before.
  obtain ⟨hplace₁, htree₁⟩ := configuration_rests hadds.isStill hread
  obtain ⟨hplace₂, htree₂⟩ := configuration_rests hadds.isStill_after hread'
  have hhead : p.binary.head? ≠ some 0x7f := by
    rw [Protection.head?_of_compile hp]
    decide
  have himage := World.traits_of_put (hplace₂.trans (hadds.workingPlace'.trans hplace₁.symm))
    (htree₂.trans (htree.trans (by rw [htree₁])))
    (by rw [htree₁]; exact hadds.ne_directory) hhead
  obtain ⟨hstrict, line, hline, hneeds, rfl⟩ :=
    Protection.compile_of_loses (loses_given himage) rfl hp hp'
  exact .stack hstrict hline hneeds

/-- If writing the variants fails, either no file has changed, or the first variant was written and
the second one was not. -/
theorem configToFile_error (hstill : w.tree.IsStill)
    (h : w.run (l.configToFile directory) = (.error e, w')) :
    w.tree.Grows (fun _ => True) (w.withDirectory directory).tree ∧
      (w'.tree = (w.withDirectory directory).tree ∧
          l.StopsEarly directory (w.withDirectory directory) e ∨
        l.LeavesHalf directory (w.withDirectory directory) w' e) := by
  refine ⟨w.withDirectory_grows directory, ?_⟩
  unfold configToFile at h
  rcases World.run_bind_error h with hmade | ⟨u, w₁, hmade, h⟩
  · rw [World.run_createDirectories] at hmade
    obtain ⟨he, rfl⟩ := Prod.mk.inj hmade
    refine .inl ⟨rfl, ?_⟩
    cases hcreate : (w.tree.createDirectories w.workingPlace directory).1 with
    | ok u =>
      rw [hcreate] at he
      cases he
    | error fault =>
      rw [hcreate] at he
      exact Except.error.inj he ▸ .directory fault
  · obtain ⟨hplace₁, hstill₁⟩ := World.still_of_createDirectories hstill hmade
    rw [World.run_createDirectories] at hmade
    obtain rfl := (Prod.mk.inj hmade).2
    rcases World.run_bind_error h with hfirst | ⟨first, w₂, hfirst, h⟩
    · obtain ⟨-, htree, hvariant | ⟨fault, rfl⟩⟩ := run_writeVariant_error hstill₁ hfirst
      · exact .inl ⟨htree, .variant hvariant⟩
      · exact .inl ⟨htree, .file fault⟩
    · obtain ⟨options, lines, r, p, hread, hp, -, hadds, htree₂⟩ :=
        run_writeVariant hstill₁ hfirst
      rcases World.run_bind_error h with hsecond | ⟨second, w₃, -, hend⟩
      · obtain ⟨-, htree₃, hlate⟩ := run_writeVariant_error hadds.isStill_after hsecond
        refine .inr ⟨options, lines, r, p, hread, hp, htree₃.trans htree₂, ?_⟩
        rcases hlate with hvariant | ⟨fault, rfl⟩
        · exact stopsLate_of_variant hread hp hadds htree₂ hvariant
        · exact .file fault
      · cases hend

def olderContent : Bytes := Bytes.ofString "old\n"

/-- The sample, with variants of an earlier time. -/
def olderWorld : World where
  __ := sampleWorld
  tree := ((sampleWorld.tree.put ["out"] .directory).put ["out", "wxprot"]
    (.file olderContent)).put ["out", "wxprot_noemutramp"] (.file olderContent)

/-- What becomes of them if all programs have an executable stack. -/
def olderOutput : Except Failure (List Path) × World :=
  olderWorld.run (stackLoader.configToFile "/out")

/-- There is no second policy, and after that the first file is new and the second one is old. -/
theorem olderOutput_mixed :
    failureOf olderOutput.1 = some ("WX protection configuration error at line " ++
      "'/conf/wxprot.conf:1': WXORX protection is incompatible with GNU executable stack " ++
      "marking. Did you forget EMUTRAMP?.") ∧
    olderOutput.2.tree.get? ["out", "wxprot"] ≠ some (.file olderContent) ∧
    olderOutput.2.tree.get? ["out", "wxprot_noemutramp"] = some (.file olderContent) := by
  decide +kernel

theorem olderOutput_written : olderOutput.1.toOption = none ∧
    olderOutput.2.tree.get? ["out", "wxprot"] ≠
      (olderWorld.withDirectory "/out").tree.get? ["out", "wxprot"] := by
  decide +kernel

/-- The first variant of the sample is left behind. -/
theorem configToFile_error_sample : olderWorld.tree.IsStill ∧ ∃ e w',
    olderWorld.run (stackLoader.configToFile "/out") = (.error e, w') ∧
      stackLoader.LeavesHalf "/out" (olderWorld.withDirectory "/out") w' e := by
  have hstill : olderWorld.tree.IsStill := Tree.isStill_of_all (by decide +kernel)
  obtain ⟨hnone, hwritten⟩ := olderOutput_written
  cases hrun : olderWorld.run (stackLoader.configToFile "/out") with
  | mk r w' =>
    have hworld : olderOutput.2 = w' := congrArg Prod.snd hrun
    cases r with
    | ok paths =>
      have hpaths : olderOutput.1 = .ok paths := congrArg Prod.fst hrun
      rw [hpaths] at hnone
      cases hnone
    | error e =>
      refine ⟨hstill, e, w', rfl, (configToFile_error hstill hrun).2.resolve_left ?_⟩
      rintro ⟨hsame, -⟩
      rw [hworld, hsame] at hwritten
      exact hwritten rfl

end Loader

end PathPolicy
