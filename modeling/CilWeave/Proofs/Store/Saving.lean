import CilWeave.Proofs.Image.Definition
import CilWeave.Proofs.Mixin.WovenBodies

/-!
Modules that are written and loaded again. A module is loaded exactly if its bodies are valid, its image does
not nest too deeply and there is a numeral for each of its numbers; and what is loaded is the module as it was,
up to the counters of its bodies, if readers make of every numeral the number that was written.
-/

namespace CilWeave

open Image Stateful

namespace Disk

variable {disk after : Disk} {names : List String} {contents : String}

theorem entry?_put {place : List String} (below : place ≠ []) (entry : DiskEntry) (other : List String) :
    Disk.entry? (disk.put place entry) other = if other = place then some entry else disk.entry? other := by
  by_cases same : other = place
  · subst other
    simp [put, below, entry?]
  · rw [if_neg same]
    cases other with
    | nil => rfl
    | cons name rest =>
        have apart : ¬ place = name :: rest := fun held => same held.symm
        have kept : (fun stored : List String × DiskEntry => !decide (stored.1 = place) && decide (stored.1 = name :: rest)) =
            fun stored => stored.1 == name :: rest := by
          funext stored
          by_cases here : stored.1 = name :: rest <;> simp [here, same]
        simp [put, clear, apart, List.find?_filter, kept, entry?]

/-- A file that was written is there, and no directory came or went. -/
theorem file?_of_write? (written : disk.write? names contents = some after) : after.file? names = some contents := by
  obtain ⟨place, found, written⟩ := Option.bind_eq_some_iff.mp written
  split at written
  · cases written
  · rename_i free
    obtain rfl := (Option.some.inj written).symm
    have below : place ≠ [] := by
      rintro rfl
      exact free rfl
    have directories : (disk.put place (.file contents)).isDirectory = disk.isDirectory := by
      funext other
      rw [isDirectory, entry?_put below]
      split
      · rename_i same
        rw [same, Bool.eq_false_iff.mpr free]
        rfl
      · rfl
    have placed : (disk.put place (.file contents)).place? names = some place := by
      rw [place?, directories]
      exact found
    rw [file?, placed, Option.bind_some, entry?_put below, if_pos rfl]

theorem file?_of_replace (saved : disk.replace names contents = (true, after)) : after.file? names = some contents := by
  unfold replace at saved
  dsimp only at saved
  split at saved
  · split at saved
    · cases saved
    · rename_i written wrote
      split at saved
      · rename_i renamed moved
        cases saved
        obtain ⟨read, held, moved⟩ := Option.bind_eq_some_iff.mp moved
        rw [file?_of_write? wrote, Option.some.injEq] at held
        exact file?_of_write? (held ▸ moved)
      · cases saved
  · cases saved

theorem isPath_eq : isPath = fun names =>
    !(names.any fun name => decide ('\x00' ∈ name.toList)) && ("/".intercalate names).utf8ByteSize ≤ maxPathLength := by
  funext names
  simp only [isPath, String.contains_char_eq]

end Disk

namespace Module

variable {module : Module} {text : String}

/-- Validity is about bodies and does not depend on their constants and counters. -/
theorem validate_reread (module : Module) : module.reread.validate = .ok () ↔ module.validate = .ok () := by
  rw [validate_iff, validate_iff]
  simp [EachBody, reread, TypeDef.reread, MethodDef.reread, Body.validate_reread]

theorem ofText_ok {loaded : Module} : ofText text = .ok loaded ↔ ofImage? text = some loaded ∧
    loaded.validate = .ok () := by
  unfold ofText
  cases ofImage? text with
  | none => simp
  | some read =>
      dsimp only
      cases checked : read.validate with
      | error fault =>
          constructor
          · intro wrong
            cases wrong
          · rintro ⟨same, valid⟩
            cases same
            cases checked.symm.trans valid
      | ok done =>
          constructor
          · intro loaded
            cases loaded
            exact ⟨rfl, checked⟩
          · rintro ⟨same, -⟩
            cases same
            rfl

/-- One of the two texts of a module. -/
def IsText (module : Module) (text : String) : Prop := text = module.compactText ∨ text = module.prettyText

/-- The numerals of the module's finite numbers are read as some numbers. -/
def Readable (module : Module) : Prop := ∀ scalar ∈ module.scalars, scalar.Readable

/-- The numerals of the module's finite numbers are read as these numbers. -/
def Faithful (module : Module) : Prop := ∀ scalar ∈ module.scalars, scalar.Faithful

/-- All numbers of the module are finite. -/
def Storable (module : Module) : Prop := ∀ scalar ∈ module.scalars, scalar.Storable

/-- The image of the module nests no more arrays and objects than a reader enters. -/
def Shallow (module : Module) : Prop := (Image.write plain module).depth ≤ maxImageDepth

theorem Faithful.readable (faithful : module.Faithful) : module.Readable :=
  fun scalar member => (faithful scalar member).readable

theorem IsText.ofImage? (written : module.IsText text) (readable : module.Readable) :
    Module.ofImage? text = Image.read? maxImageDepth (Image.write plain module) := by
  have legible := module.kept.legible readable _ List.mem_cons_self _ rfl
  have read : Json.read? text = some (Image.write plain module) := by
    rcases written with rfl | rfl
    · exact legible.read?_compact
    · exact legible.read?_pretty
  rw [Module.ofImage?, read, Option.bind_some]

/-- A text of a module is loaded exactly if the module is valid and its image holds all of it, and then as the module with its
numbers as they are read. -/
theorem IsText.ofText_iff (written : module.IsText text) (readable : module.Readable) (loaded : Module) :
    ofText text = .ok loaded ↔ (module.Shallow ∧ module.Storable ∧ module.validate = .ok ()) ∧
    loaded = module.reread := by
  have exact := module.kept.exact readable maxImageDepth loaded
  simp only [List.mem_singleton, forall_eq, Option.mem_def, Option.some.injEq] at exact
  have image := written.ofImage? readable
  constructor
  · intro read
    obtain ⟨read, valid⟩ := ofText_ok.mp read
    obtain ⟨shallow, storable, rfl⟩ := exact.mp (image.symm.trans read)
    exact ⟨⟨shallow _ rfl, storable, module.validate_reread.mp valid⟩, rfl⟩
  · rintro ⟨⟨shallow, storable, valid⟩, rfl⟩
    have fits : ∀ json, Image.write plain module = json → json.depth ≤ maxImageDepth := fun json same => same ▸ shallow
    exact ofText_ok.mpr ⟨image.trans (exact.mpr ⟨fits, storable, rfl⟩), module.validate_reread.mpr valid⟩

/-- A valid module is loaded as it was written, up to the counters of its bodies, which no comparison sees. -/
theorem loads_written (written : module.IsText text) (faithful : module.Faithful) (storable : module.Storable)
    (shallow : module.Shallow) (valid : module.validate = .ok ()) {disk after : Disk} {path : List String}
    (saved : disk.replace path text = (true, after)) :
    after.loadModule path = .ok module.restart ∧ ∀ other, (module.restart == other) = (module == other) := by
  have same : module.reread = module.restart := module.reread_eq faithful
  have loaded := (written.ofText_iff faithful.readable module.restart).mpr ⟨⟨shallow, storable, valid⟩, same.symm⟩
  refine ⟨?_, module.restart_beq⟩
  rw [Disk.loadModule, Disk.file?_of_replace saved]
  exact loaded

end Module

namespace Shelf

def sig : TypeSig := .generic (.external "corlib" "System" "List") [.array (.typeParam 0), .byRef (.primitive .single)]

def tenth : Double := ⟨0xBFB999999999999A⟩

def note : Attribute :=
  ⟨.onInstance (.classType (.here "Demo" "Note")) ".ctor" .void [.primitive .string],
    .decoded ⟨[.string none, .enum "Demo.Color" (.int32 (-2)),
      .array (some [.char '"', .double tenth, .int64 Int64.minValue])],
      [⟨true, "Tag\n", 0x0B, .uint64 18446744073709551615⟩]⟩⟩

def body : Body :=
  ⟨2, false, #[sig], #[⟨0, .ldstr, .string "\"a\\b\"\t\x01"⟩, ⟨7, .pop, .none⟩,
    ⟨3, .ldcI4, .immediate (.int32 (-5))⟩,
    ⟨2, .ldcR8, .immediate (.double tenth)⟩, ⟨4, .switch, .switch [0, 7]⟩, ⟨5, .br, .target 6⟩,
      ⟨6, .ret, .none⟩], 9⟩

/-- A type with flags that have no names, an attribute in binary form, and members with and without what may be left out. -/
def shelf : TypeDef :=
  ⟨"Demo", "Shelf", ⟨0x80000021⟩, none, [sig],
    [⟨"count", ⟨0⟩, .typeParam 1, [⟨.onInstance sig ".ctor" .void [], .raw [1, 255]⟩]⟩],
    [⟨"Sort", ⟨0x7⟩, .void, [⟨"by", sig, [note]⟩], some body, []⟩, ⟨"Drop", ⟨0x10⟩, sig, [], none, [note]⟩],
      []⟩

def module : Module := ⟨"Demo", ["corlib"], [shelf]⟩

def after (text : String) : Disk := (Disk.empty.replace ["Demo.json"] text).2

theorem scalars_module : module.scalars = [.double tenth, .double tenth, .double tenth] := rfl

theorem storable_tenth : (Scalar.double tenth).Storable := ⟨_, _, rfl⟩

theorem faithful_tenth : (Scalar.double tenth).Faithful := by
  intro finite
  have read : (double? (plain.double tenth)).map Double.bits = some tenth.bits := by decide +kernel
  obtain ⟨⟨bits⟩, found, rfl⟩ := Option.map_eq_some_iff.mp read
  exact found

theorem valid : module.validate = .ok () := ok_of_isOk () (by decide +kernel)

theorem shallow : module.Shallow := by
  unfold Module.Shallow
  decide +kernel

theorem faithful : module.Faithful := by
  simp [Module.Faithful, scalars_module, faithful_tenth]

theorem storable : module.Storable := by
  simp [Module.Storable, scalars_module, storable_tenth]

theorem saved (text : String) : Disk.empty.replace ["Demo.json"] text = (true, after text) := by
  refine Prod.ext ?_ rfl
  simp only [Disk.replace, Disk.makeDirectories, Disk.makeDirectory, Disk.write?, Disk.rename?, Disk.removeFile, Disk.file?,
    Disk.place?, Disk.isPath_eq]
  rfl

/-- A module with every kind of member is loaded as it was. -/
theorem loads_written_indented :
    Disk.empty.replace ["Demo.json"] module.prettyText = (true, after module.prettyText) ∧
      (after module.prettyText).loadModule ["Demo.json"] = .ok module.restart :=
  ⟨saved _, (Module.loads_written (.inr rfl) faithful storable shallow valid (saved _)).1⟩

end Shelf

end CilWeave
