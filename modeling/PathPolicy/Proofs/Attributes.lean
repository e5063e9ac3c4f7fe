import PathPolicy.Loader.Attribute
import PathPolicy.Proofs.Histories
import PathPolicy.Proofs.SecondReadings

/-!
# Values for files

The value of an extended attribute is read from columns as a rule is, with the file in the place of
its path, and a fixed word there if there is no file. What is read before any image depends neither
on the file nor on what is known of images (`Loader.encodeAttribute_eq`), so a value for a file is
one that the columns have on their own and that the image of the file allows
(`Loader.encodeAttribute_inspects`). The word in the place of the path is not taken for what it is,
though: a file whose name ends in an asterisk is never inspected, and the fixed word is.
-/

namespace PathPolicy

open Files (Path)

theorem Except.mapError_eq_ok {α ε ε' : Type} {r : Except ε α} {f : ε → ε'} {a : α} :
    r.mapError f = .ok a ↔ r = .ok a := by
  cases r <;> simp [Except.mapError]

namespace Protection

namespace Reader

variable {support : Support} {inspector inspector' : Image.Inspector} {absolutePaths : Bool}
  {word : String} {columns : List String}

/-- A line depends on no image but the one at its path, and on that one only if it is exact. -/
theorem read_congr_image (h : (splitPattern word).2 = true →
      (inspector (splitPattern word).1).traits? = (inspector' (splitPattern word).1).traits?) :
    (Reader.mk support inspector absolutePaths).read (word :: columns) =
      (Reader.mk support inspector' absolutePaths).read (word :: columns) := by
  have htext : (Reader.mk support inspector absolutePaths).readText (word :: columns) =
      (Reader.mk support inspector' absolutePaths).readText (word :: columns) := rfl
  unfold read
  rw [htext]
  cases hread : (Reader.mk support inspector' absolutePaths).readText (word :: columns) with
  | error fault => rfl
  | ok rule =>
    obtain ⟨-, hsplit, -⟩ := readText_cons_eq_ok.1 hread
    rw [← hsplit] at h
    by_cases hexact : rule.exact = true
    · simp only [bind, Except.bind, checkImage_congr (h hexact)]
    · simp only [bind, Except.bind, if_neg hexact]

def valueOf (r : Reader) (word : String) (columns : List String) : Except ConfigError UInt32 :=
  match r.read (word :: columns) with
  | .ok rule => .ok rule.flags.bits.toUInt32
  | .error fault => .error (lineError word fault)

theorem valueOf_eq_ok {r : Reader} (h : r.absolutePaths = false) {value : UInt32} :
    r.valueOf word columns = .ok value ↔ columns ≠ [] ∧
      (splitPattern word).1.utf8ByteSize ≤ Rule.pathLimit ∧
      ∃ flags, Flags.parse columns r.support = .ok flags ∧ value = flags.bits.toUInt32 ∧
        ((splitPattern word).2 = true →
          checkImage r.inspector (splitPattern word).1 flags = .ok ()) := by
  have hvalue : r.valueOf word columns = .ok value ↔
      ∃ rule, r.read (word :: columns) = .ok rule ∧ value = rule.flags.bits.toUInt32 := by
    unfold valueOf
    cases r.read (word :: columns) with
    | error fault => simp
    | ok rule => simp [eq_comm]
  rw [hvalue]
  simp only [read_eq_ok, readText_cons_eq_ok, h]
  constructor
  · rintro ⟨rule, ⟨⟨hne, hsplit, hsize, -, hflags⟩, himage⟩, rfl⟩
    rw [← hsplit]
    exact ⟨hne, hsize, rule.flags, hflags, rfl, himage⟩
  · rintro ⟨hne, hsize, flags, hflags, rfl, himage⟩
    exact ⟨⟨(splitPattern word).1, flags, (splitPattern word).2⟩,
      ⟨⟨hne, rfl, hsize, nofun, hflags⟩, himage⟩, rfl⟩

end Reader

theorem encodeValue_fst (word : String) (columns : List String) (ctx : Context) :
    (encodeValue (word :: columns) ctx).1 =
      Reader.valueOf { Reader.ofContext ctx with absolutePaths := false } word columns := by
  unfold encodeValue Reader.valueOf
  dsimp only
  cases Reader.read _ (word :: columns) <;> rfl

end Protection

open Protection (Rule Support Flags checkImage lineError)

namespace Loader

variable {l : Loader} {w w₁ : World} {submodule : String} {columns : List String}
  {file : Option Path} {support : Support} {value : UInt32}

/-! ## What is read before any image -/

/-- What a loader finds at the paths that it inspects. -/
def sees (l : Loader) (w : World) : Image.Inspector :=
  match l.images with
  | .files => w.inspection
  | .known inspector => inspector

theorem knows_of_mem {paths : List Path} {path : Path} (h : path ∈ paths) :
    l.knows w paths path = l.sees w path := by
  unfold knows sees
  cases l.images with
  | files => exact if_pos h
  | known inspector => rfl

/-- Finds out how trampolines are supported, for a submodule that has an extended attribute. -/
def attributeSupport (l : Loader) (submodule : String) : Task (StateM World) Support := do
  let some sm := Submodule.ofName? submodule | throw (.unknownSubmodule submodule)
  if sm.attribute?.isNone then throw (.noAttribute sm.longName)
  let options ← l.options
  let features ← l.features sm Kernel.Features.empty
  return (Protection.Reader.ofContext ⟨options, features, .blind, .strict⟩).support

def placeholder (file : Option Path) : String := file.getD "xattr"

def attributeValue (l : Loader) (w : World) (support : Support) (columns : List String)
    (file : Option Path) : Except Failure UInt32 :=
  match Text.ShellWords.split (" ".intercalate columns) with
  | none => .error (.openQuote (" ".intercalate columns))
  | some words =>
    ((Protection.Reader.mk support (l.sees w) false).valueOf (placeholder file) words).mapError
      .config

/-- What is reported does not matter for an answer. -/
theorem run_answer (answer : Except ConfigError UInt32 × List Event) :
    (w.run (do
      Task.reportAll answer.2
      match answer.1 with
      | .ok value => return value
      | .error e => throw (.config e))).1 = answer.1.mapError .config := by
  obtain ⟨events, hreport⟩ := run_reportAll w answer.2
  rw [World.run_bind_of_ok hreport]
  cases answer.1 <;> rfl

/-- A line has the value that it has for what its loader sees. -/
theorem encodeValue_eq (word : String) (words : List String) (options : Options)
    (features : Kernel.Features) :
    (Protection.encodeValue (word :: words) ⟨options, features,
      l.knows w ([word :: words].flatMap Submodule.protection.consulted), .strict⟩).1 =
    (Protection.Reader.mk (Protection.Reader.ofContext ⟨options, features, .blind,
      .strict⟩).support (l.sees w) false).valueOf word words := by
  have hknows : (Protection.Reader.splitPattern word).2 = true →
      l.knows w ([word :: words].flatMap Submodule.protection.consulted)
        (Protection.Reader.splitPattern word).1 =
          l.sees w (Protection.Reader.splitPattern word).1 := by
    intro hexact
    apply knows_of_mem
    simp only [List.flatMap_singleton, Submodule.consulted, List.head?_cons, Option.map_some,
      Option.filter_some, hexact]
    exact List.mem_singleton_self _
  rw [Protection.encodeValue_fst]
  unfold Protection.Reader.valueOf
  rw [← Protection.Reader.read_congr_image
    fun hexact => congrArg Image.Inspection.traits? (hknows hexact)]
  rfl

/-- What the value of columns is depends on nothing but the support of trampolines that was found
before, and on what the loader sees after that. -/
theorem encodeAttribute_eq (l : Loader) (w : World) (submodule : String) (columns : List String)
    (file : Option Path) : (w.run (l.encodeAttribute submodule columns file)).1 =
      match w.run (l.attributeSupport submodule) with
      | (.error e, _) => .error e
      | (.ok support, w₁) => l.attributeValue w₁ support columns file := by
  unfold encodeAttribute attributeSupport
  cases Submodule.ofName? submodule with
  | none => rfl
  | some sm =>
    cases sm
    have hattribute : ¬ Submodule.protection.attribute?.isNone = true := by decide
    dsimp only
    rw [if_neg hattribute, if_neg hattribute, World.run_bind, World.run_bind]
    cases w.run l.options with
    | mk r w₁ =>
      cases r with
      | error e => rfl
      | ok options =>
        obtain ⟨features, hfeatures, -⟩ := @run_features l w₁
        dsimp only
        rw [World.run_bind_of_ok hfeatures]
        unfold attributeValue
        cases Text.ShellWords.split (" ".intercalate columns) with
        | none => rfl
        | some words =>
          have hcontext := run_context_of_features hfeatures [placeholder file :: words] options
            .strict
          exact (congrArg Prod.fst (World.run_bind_of_ok hcontext)).trans
            ((run_answer _).trans (congrArg _ (encodeValue_eq _ words options features)))

/-! ## What a file makes of a value -/

/-- The loader, if it knew nothing of any image. -/
def blinded (l : Loader) : Loader := { l with images := .known .blind }

/-- What is asked of the word in the place of the path: it is short enough, and the image there
allows the protection word. No image is looked at if it ends in an asterisk. -/
def Admits (l : Loader) (w : World) (file : Option Path) (flags : Flags) : Prop :=
  (Protection.Reader.splitPattern (placeholder file)).1.utf8ByteSize ≤ Rule.pathLimit ∧
    ((Protection.Reader.splitPattern (placeholder file)).2 = true →
      checkImage (l.sees w) (Protection.Reader.splitPattern (placeholder file)).1 flags = .ok ())

theorem blinded_admits (l : Loader) (w : World) (flags : Flags) :
    l.blinded.Admits w none flags :=
  ⟨by decide +kernel, fun _ => Protection.checkImage_of_unknown rfl flags⟩

theorem admits_iff {file : Path} (hsize : file.utf8ByteSize ≤ Rule.pathLimit)
    (hstar : file.toList.getLast? ≠ some '*') (flags : Flags) :
    l.Admits w (some file) flags ↔ checkImage (l.sees w) file flags = .ok () := by
  have hsplit : Protection.Reader.splitPattern (placeholder (some file)) = (file, true) :=
    if_neg hstar
  unfold Admits
  rw [hsplit]
  exact (and_iff_right hsize).trans (forall_prop_of_true rfl)

theorem attributeValue_eq_ok : l.attributeValue w support columns file = .ok value ↔
    ∃ words flags, Text.ShellWords.split (" ".intercalate columns) = some words ∧ words ≠ [] ∧
      Flags.parse words support = .ok flags ∧ value = flags.bits.toUInt32 ∧
        l.Admits w file flags := by
  unfold attributeValue
  cases Text.ShellWords.split (" ".intercalate columns) with
  | none => simp
  | some words =>
    have hreader := @Protection.Reader.valueOf_eq_ok (placeholder file) words
      ⟨support, l.sees w, false⟩ rfl value
    refine (Except.mapError_eq_ok.trans hreader).trans ?_
    unfold Admits
    constructor
    · rintro ⟨hne, hsize, flags, hflags, hvalue, himage⟩
      exact ⟨words, flags, rfl, hne, hflags, hvalue, hsize, himage⟩
    · rintro ⟨_, flags, hwords, hne, hflags, hvalue, hsize, himage⟩
      obtain rfl := Option.some.inj hwords
      exact ⟨hne, hsize, flags, hflags, hvalue, himage⟩

theorem attributeValue_iff_blinded : l.attributeValue w support columns file = .ok value ↔
    l.blinded.attributeValue w support columns none = .ok value ∧
      l.Admits w file ⟨value.toUInt16⟩ := by
  rw [attributeValue_eq_ok, attributeValue_eq_ok]
  constructor
  · rintro ⟨words, flags, hwords, hne, hflags, rfl, hadmits⟩
    refine ⟨⟨words, flags, hwords, hne, hflags, rfl, l.blinded_admits w flags⟩, ?_⟩
    rwa [UInt16.toUInt16_toUInt32]
  · rintro ⟨⟨words, flags, hwords, hne, hflags, rfl, -⟩, hadmits⟩
    rw [UInt16.toUInt16_toUInt32] at hadmits
    exact ⟨words, flags, hwords, hne, hflags, rfl, hadmits⟩

/-- Of what is known of images, only the one at the word in the place of the path matters. -/
theorem attributeValue_congr {l' : Loader}
    (h : (l'.sees w (placeholder file)).traits? = (l.sees w (placeholder file)).traits?)
    (hexact : Protection.Reader.splitPattern (placeholder file) = (placeholder file, true)) :
    l'.attributeValue w support columns file = l.attributeValue w support columns file := by
  unfold attributeValue Protection.Reader.valueOf
  cases Text.ShellWords.split (" ".intercalate columns) with
  | none => rfl
  | some words =>
    dsimp only
    rw [Protection.Reader.read_congr_image fun _ => ?_]
    rw [hexact]
    exact h

def inspected (l : Loader) (w : World) (submodule : String) : World :=
  (w.run (l.attributeSupport submodule)).2

theorem encodeAttribute_iff_blinded (l : Loader) (w : World) (submodule : String)
    (columns : List String) (file : Option Path) (value : UInt32) :
    (w.run (l.encodeAttribute submodule columns file)).1 = .ok value ↔
      (w.run (l.blinded.encodeAttribute submodule columns none)).1 = .ok value ∧
        l.Admits (l.inspected w submodule) file ⟨value.toUInt16⟩ := by
  have hsame : l.blinded.attributeSupport submodule = l.attributeSupport submodule := rfl
  unfold inspected
  rw [encodeAttribute_eq, encodeAttribute_eq, hsame]
  cases w.run (l.attributeSupport submodule) with
  | mk r w₁ =>
    cases r with
    | error e => simp
    | ok support => exact attributeValue_iff_blinded

/-- A value for a file is the value of the columns, if the file admits it; whether it does depends
on the image at the path of the file, unless its name ends in an asterisk. -/
theorem encodeAttribute_inspects (l : Loader) (w : World) (submodule : String)
    (columns : List String) :
    (∀ file value, (w.run (l.encodeAttribute submodule columns file)).1 = .ok value ↔
      (w.run (l.blinded.encodeAttribute submodule columns none)).1 = .ok value ∧
        l.Admits (l.inspected w submodule) file ⟨value.toUInt16⟩) ∧
    (∀ (file : Path) value, file.utf8ByteSize ≤ Rule.pathLimit → file.toList.getLast? ≠ some '*' →
      ((w.run (l.encodeAttribute submodule columns (some file))).1 = .ok value ↔
        (w.run (l.blinded.encodeAttribute submodule columns none)).1 = .ok value ∧
          checkImage (l.sees (l.inspected w submodule)) file ⟨value.toUInt16⟩ = .ok ())) ∧
    ∀ images, (({ l with images } : Loader).sees (l.inspected w submodule) "xattr").traits? =
        (l.sees (l.inspected w submodule) "xattr").traits? →
      (w.run (({ l with images } : Loader).encodeAttribute submodule columns none)).1 =
        (w.run (l.encodeAttribute submodule columns none)).1 := by
  refine ⟨l.encodeAttribute_iff_blinded w submodule columns, fun file value hsize hstar => ?_,
    fun images htraits => ?_⟩
  · rw [encodeAttribute_iff_blinded, admits_iff hsize hstar]
  · have hsame : ({ l with images } : Loader).attributeSupport submodule =
        l.attributeSupport submodule := rfl
    unfold inspected at htraits
    rw [encodeAttribute_eq, encodeAttribute_eq, hsame]
    cases hrun : w.run (l.attributeSupport submodule) with
    | mk r w₁ =>
      rw [hrun] at htraits
      cases r with
      | error e => rfl
      | ok support => exact attributeValue_congr htraits (by decide +kernel)

/-- A loader that takes every image for one with an executable stack. -/
def stackLoader : Loader :=
  { sampleLoader with images := .known fun _ => .image ⟨true, true, false⟩ }

/-- A value that a file with an executable stack does not get, and that is the same for a loader
that looks at the files as for one that knows nothing. -/
theorem encodeAttribute_inspects_sample :
    (("/a".utf8ByteSize ≤ Rule.pathLimit ∧ "/a".toList.getLast? ≠ some '*') ∧
      (sampleWorld.run (stackLoader.blinded.encodeAttribute "wxprot" ["WXORX"] none)).1 = .ok 8 ∧
      (sampleWorld.run (stackLoader.encodeAttribute "wxprot" ["WXORX"] (some "/a"))).1 ≠ .ok 8) ∧
    (sampleLoader.sees (sampleLoader.inspected sampleWorld "wxprot") "xattr").traits? = none ∧
      (sampleWorld.run (sampleLoader.blinded.encodeAttribute "wxprot" ["FULL"] none)).1 =
        (sampleWorld.run (sampleLoader.encodeAttribute "wxprot" ["FULL"] none)).1 := by
  have hsize : "/a".utf8ByteSize ≤ Rule.pathLimit := by decide +kernel
  have hstar : "/a".toList.getLast? ≠ some '*' := by decide +kernel
  have hvalue : (sampleWorld.run
      (stackLoader.blinded.encodeAttribute "wxprot" ["WXORX"] none)).1.toOption = some 8 := by
    decide +kernel
  have himage : (sampleLoader.sees (sampleLoader.inspected sampleWorld "wxprot") "xattr").traits? =
      none := by decide +kernel
  obtain ⟨-, hfile, -⟩ := stackLoader.encodeAttribute_inspects sampleWorld "wxprot" ["WXORX"]
  obtain ⟨-, -, hnone⟩ := sampleLoader.encodeAttribute_inspects sampleWorld "wxprot" ["FULL"]
  obtain ⟨w', hrun⟩ := World.run_of_toOption hvalue
  refine ⟨⟨⟨hsize, hstar⟩, congrArg Prod.fst hrun, fun hok => ?_⟩, himage,
    hnone (.known .blind) himage.symm⟩
  have hcheck : checkImage (stackLoader.sees (stackLoader.inspected sampleWorld "wxprot")) "/a"
      ⟨UInt32.toUInt16 8⟩ = .error .executableStack := by decide +kernel
  have hpassed := ((hfile "/a" 8 hsize hstar).1 hok).2
  rw [hcheck] at hpassed
  cases hpassed

/-- A value depends on what is known of images although there is no file, and is given to a file
whose image does not allow it. -/
theorem stackLoader_misled :
    ((sampleWorld.run (stackLoader.encodeAttribute "wxprot" ["WXORX"] none)).1.toOption = none ∧
      (sampleWorld.run (stackLoader.blinded.encodeAttribute "wxprot" ["WXORX"] none)).1.toOption =
        some 8) ∧
    "out/x*".utf8ByteSize ≤ Rule.pathLimit ∧
      (sampleWorld.run
        (stackLoader.encodeAttribute "wxprot" ["WXORX"] (some "out/x*"))).1.toOption = some 8 ∧
      checkImage (stackLoader.sees (stackLoader.inspected sampleWorld "wxprot")) "out/x*"
        ⟨UInt32.toUInt16 8⟩ = .error .executableStack := by
  decide +kernel

end Loader

end PathPolicy
