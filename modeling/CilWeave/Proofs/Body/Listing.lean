import CilWeave.Mixin.Locating
import CilWeave.Proofs.Body.Relaxation
import CilWeave.Proofs.Signature.Names
import CilWeave.Proofs.Text.Ends
import CilWeave.Proofs.Text.Hexadecimal

/-!
What lines of a listing are found by. Labels grow with the offsets they show, so no two are alike, and none has a colon, so
each ends where its statement begins. Statements begin with a mnemonic and labels do not: a text is the label and statement
of one line only, and a statement is taken for nothing else.
-/

namespace CilWeave

namespace Text

theorem splitAtMark?_append {first second : Char} {before : List Char} (whole : first ∉ before) (rest : List Char) :
    splitAtMark? first second (before ++ first :: second :: rest) = some (before, rest) := by
  induction before with
  | nil => simp [splitAtMark?]
  | cons char before ih =>
      have other : char ≠ first := fun same => whole (same ▸ List.mem_cons_self)
      have later := ih fun member => whole (List.mem_cons_of_mem _ member)
      cases before with
      | nil => simp_all [splitAtMark?]
      | cons next before => simp_all [splitAtMark?]

theorem hexPadded_inj {width left right : Nat} (same : hexPadded width left = hexPadded width right) : left = right := by
  have read := congrArg (fun text : String => hexValue? text.toList) same
  simpa only [hexValue?_hexPadded, Option.some.injEq] using read

theorem colon_notMem_hexPadded (width number : Nat) : ':' ∉ (hexPadded width number).toList := by
  intro member
  rw [hexPadded, String.toList_ofList] at member
  rcases List.mem_append.mp member with zero | digit
  · exact absurd (List.eq_of_mem_replicate zero) (by decide)
  · obtain ⟨digit, small, same⟩ := exists_digit_of_mem_toDigits digit
    have other : ∀ digit < 16, ':' ≠ Nat.digitChar digit := by decide
    exact other digit small same

end Text

open Text

theorem Opcode.size_pos (opcode : Opcode) : 0 < opcode.size := by
  unfold Opcode.size
  split <;> decide

theorem Instruction.size_pos (instruction : Instruction) : 0 < instruction.size :=
  Nat.lt_of_lt_of_le instruction.opcode.size_pos (Nat.le_add_right ..)

theorem sum_take_lt {sizes : List Nat} (positive : ∀ size ∈ sizes, 0 < size) {first last : Nat} (less : first < last)
    (inside : last ≤ sizes.length) : (sizes.take first).sum < (sizes.take last).sum := by
  induction sizes generalizing first last with
  | nil =>
      rw [List.length_nil] at inside
      omega
  | cons size rest ih =>
      obtain ⟨own, others⟩ := List.forall_mem_cons.mp positive
      cases last with
      | zero => omega
      | succ last =>
          cases first with
          | zero =>
              simp only [List.take_zero, List.sum_nil, List.take_succ_cons, List.sum_cons]
              omega
          | succ first =>
              have later := ih others (Nat.lt_of_succ_lt_succ less) (Nat.le_of_succ_le_succ inside)
              simp only [List.take_succ_cons, List.sum_cons]
              omega

namespace Body

variable {body : Body} {position other : Nat} {instruction : Instruction} {line text : String}

theorem sizes_pos (body : Body) : ∀ size ∈ body.sizes, 0 < size := by
  intro size member
  obtain ⟨instruction, -, rfl⟩ := List.mem_map.mp member
  exact instruction.size_pos

theorem sum_take_inj (held : position < body.sizes.length) (held' : other < body.sizes.length)
    (same : (body.sizes.take position).sum = (body.sizes.take other).sum) : position = other := by
  rcases Nat.lt_trichotomy position other with less | equal | more
  · exact absurd same (Nat.ne_of_lt (sum_take_lt body.sizes_pos less (Nat.le_of_lt held')))
  · exact equal
  · exact absurd same.symm (Nat.ne_of_lt (sum_take_lt body.sizes_pos more (Nat.le_of_lt held)))

end Body

theorem Opcode.mnemonic_visible (opcode : Opcode) :
    (∃ char, opcode.mnemonic.toList.head? = some char ∧ char ≠ 'I' ∧ isBlank char = false) ∧
    EndsVisibly opcode.mnemonic := by
  have each : Opcode.all.all fun opcode =>
      opcode.mnemonic.toList.head?.any (fun char => char != 'I' && !isBlank char) &&
        opcode.mnemonic.toList.getLast?.all (fun char => !isBlank char) := by decide +kernel
  have own := List.all_eq_true.mp each opcode opcode.mem_all
  simp only [Bool.and_eq_true, Option.any_eq_true, Option.all_eq_true, bne_iff_ne, Bool.not_eq_true'] at own
  obtain ⟨⟨char, starts, other, visible⟩, last⟩ := own
  exact ⟨⟨char, starts, other, visible⟩, last⟩

namespace Layout

variable {layout : Layout} {instruction : Instruction}

/-- A statement begins as its mnemonic does, and no label begins like that. -/
theorem statement_head (layout : Layout) (instruction : Instruction) :
    ∃ char, (layout.statement instruction).toList.head? = some char ∧ char ≠ 'I' ∧ isBlank char = false := by
  obtain ⟨⟨char, starts, visible⟩, -⟩ := instruction.opcode.mnemonic_visible
  refine ⟨char, ?_, visible⟩
  simp only [statement]
  split
  · exact starts
  · simp only [String.toList_append, List.head?_append, Instruction.mnemonic, starts, Option.some_or]

theorem statement_last (visible : EndsVisibly (layout.operandText instruction.operand)) :
    EndsVisibly (layout.statement instruction) := by
  simp only [statement]
  split
  · exact instruction.opcode.mnemonic_visible.2
  · rename_i filled
    have some : (layout.operandText instruction.operand).toList ≠ [] := fun none => by
      rw [String.toList_eq_nil_iff] at none
      simp [none] at filled
    intro char last
    rw [String.toList_append, List.getLast?_append_of_ne_nil _ some] at last
    exact visible char last

theorem trim_statement (visible : EndsVisibly (layout.operandText instruction.operand)) :
    trim (layout.statement instruction) = layout.statement instruction := by
  obtain ⟨char, starts, -, seen⟩ := layout.statement_head instruction
  exact trim_eq_self (fun _ first => by rw [starts] at first; cases first; exact seen) (statement_last visible)

theorem line_toList (layout : Layout) (instruction : Instruction) : (layout.line instruction).toList =
    (layout.label instruction.id).toList ++ ':' :: ' ' :: (layout.statement instruction).toList := by
  simp [line]

end Layout

namespace Body

variable {body : Body} {position other : Nat} {instruction : Instruction} {line text : String}

theorem label_eq (distinct : body.ids.Nodup) (held : body.instructions[position]? = some instruction) :
    body.layout.label instruction.id = "IL_" ++ hexPadded 4 (body.sizes.take position).sum := by
  rw [Layout.label, offset?_eq, target?_of_nodup distinct held, Option.map_some]

theorem colon_notMem_label (distinct : body.ids.Nodup) (held : body.instructions[position]? = some instruction) :
    ':' ∉ (body.layout.label instruction.id).toList := by
  rw [label_eq distinct held, String.toList_append]
  exact List.not_mem_append (by decide) (colon_notMem_hexPadded 4 _)

theorem unlabelled_line (distinct : body.ids.Nodup) (held : body.instructions[position]? = some instruction) :
    unlabelled (body.layout.line instruction) = body.layout.statement instruction := by
  have labelled : ['I', 'L', '_'].isPrefixOf (body.layout.label instruction.id).toList = true := by
    rw [label_eq distinct held, String.toList_append]
    rfl
  rw [unlabelled, Layout.line_toList, splitAtMark?_append (colon_notMem_label distinct held)]
  simp only [labelled, if_true, String.ofList_toList]

theorem mem_listing (listed : body.listing[position]? = some line) :
    ∃ instruction, body.instructions[position]? = some instruction ∧ line = body.layout.line instruction := by
  rw [listing, List.getElem?_map, Array.getElem?_toList] at listed
  obtain ⟨instruction, held, rfl⟩ := Option.map_eq_some_iff.mp listed
  exact ⟨instruction, held, rfl⟩

theorem line_head (distinct : body.ids.Nodup) (listed : body.listing[position]? = some line) :
    line.toList.head? = some 'I' := by
  obtain ⟨instruction, held, rfl⟩ := mem_listing listed
  rw [Layout.line_toList, label_eq distinct held, String.toList_append]
  rfl

/-- What is left of a line without its label begins like no line. -/
theorem unlabelled_head (distinct : body.ids.Nodup) (listed : body.listing[position]? = some line) :
    ∃ char, (unlabelled line).toList.head? = some char ∧ char ≠ 'I' ∧ isBlank char = false := by
  obtain ⟨instruction, held, rfl⟩ := mem_listing listed
  rw [unlabelled_line distinct held]
  exact body.layout.statement_head instruction

theorem unlabelled_ne (distinct : body.ids.Nodup) (listed : body.listing[position]? = some line)
    (listed' : body.listing[other]? = some text) : unlabelled text ≠ line := by
  obtain ⟨char, starts, different, -⟩ := unlabelled_head distinct listed'
  intro same
  rw [same, line_head distinct listed] at starts
  exact different (Option.some.inj starts).symm

/-- No two lines are the same. -/
theorem line_inj (distinct : body.ids.Nodup) (listed : body.listing[position]? = some line)
    (listed' : body.listing[other]? = some line) : position = other := by
  obtain ⟨instruction, held, rfl⟩ := mem_listing listed
  obtain ⟨instruction', held', same⟩ := mem_listing listed'
  have chars := congrArg String.toList same
  rw [Layout.line_toList, Layout.line_toList] at chars
  have labels := String.toList_inj.mp
    (append_mark_left (colon_notMem_label distinct held) (colon_notMem_label distinct held') chars).1
  rw [label_eq distinct held, label_eq distinct held'] at labels
  have inside {position : Nat} {instruction : Instruction} (held : body.instructions[position]? = some instruction) :
      position < body.sizes.length := by
    simpa [sizes] using (Array.getElem?_eq_some_iff.mp held).1
  exact sum_take_inj (inside held) (inside held') (hexPadded_inj ((String.append_right_inj _).mp labels))

theorem line_last (held : body.instructions[position]? = some instruction)
    (visible : EndsVisibly (body.layout.operandText instruction.operand)) (listed : body.listing[position]? = some line) :
    EndsVisibly line := by
  obtain ⟨instruction', held', rfl⟩ := mem_listing listed
  obtain rfl := Option.some.inj (held.symm.trans held')
  have last := Layout.statement_last visible
  obtain ⟨char, starts, -⟩ := body.layout.statement_head instruction
  have some : (body.layout.statement instruction).toList ≠ [] := fun none => by simp [none] at starts
  rw [EndsVisibly, Layout.line_toList, List.append_cons, List.append_cons, List.getLast?_append_of_ne_nil _ some]
  exact last

theorem trim_line (distinct : body.ids.Nodup) (listed : body.listing[position]? = some line) (visible : EndsVisibly line) :
    trim line = line :=
  trim_eq_self (fun char first => by rw [line_head distinct listed] at first; cases first; decide) visible

/-- A search finds the first line that is the text or states it. -/
theorem find?_eq_some_iff (whole : trim text = text) : body.find? text = some position ↔
    (∃ line, body.listing[position]? = some line ∧ (line = text ∨ unlabelled line = text)) ∧
      ∀ other line, body.listing[other]? = some line → line = text ∨ unlabelled line = text → position ≤ other := by
  rw [find?, whole, List.findIdx?_eq_some_iff_getElem]
  simp only [Bool.or_eq_true, beq_iff_eq]
  constructor
  · rintro ⟨inside, named, before⟩
    refine ⟨⟨_, List.getElem?_eq_getElem inside, named⟩, fun other line listed same => Nat.le_of_not_lt fun less => ?_⟩
    obtain ⟨there, rfl⟩ := List.getElem?_eq_some_iff.mp listed
    simp_all
  · rintro ⟨⟨line, listed, named⟩, least⟩
    obtain ⟨inside, rfl⟩ := List.getElem?_eq_some_iff.mp listed
    refine ⟨inside, named, fun other less => ?_⟩
    have apart := mt (least other _ (List.getElem?_eq_getElem (Nat.lt_trans less inside))) (Nat.not_le_of_lt less)
    simpa using apart

theorem exists_find? (whole : trim text = text) (listed : body.listing[position]? = some line)
    (named : unlabelled line = text) : ∃ first, body.find? text = some first := by
  rw [← Option.isSome_iff_exists, find?, whole, List.findIdx?_isSome, List.any_eq_true]
  exact ⟨line, List.mem_of_getElem? listed, by rw [named, beq_self_eq_true, Bool.or_true]⟩

/-- The line of an instruction is no other text of the listing and is taken for a place in the code. It is found where it
stands, and its statement at the first line that has the same one. Labels show offsets without a bound, which are those
of 32 bits below 4 GiB of code (`toNat_offsets`). -/
theorem line_addresses (distinct : body.ids.Nodup) (held : body.instructions[position]? = some instruction)
    (visible : EndsVisibly (body.layout.operandText instruction.operand)) (listed : body.listing[position]? = some line) :
    (∀ other text, body.listing[other]? = some text → (text = line → other = position) ∧ unlabelled text ≠ line) ∧
      Location.ofText line = .instruction line ∧ CancelTarget.ofText line = .instruction line ∧
      body.find? line = some position ∧
      ∃ first, body.find? (unlabelled line) = some first ∧
        (∃ text, body.listing[first]? = some text ∧ unlabelled text = unlabelled line) ∧
        ∀ other text, body.listing[other]? = some text → unlabelled text = unlabelled line → first ≤ other := by
  have apart {other : Nat} {text : String} (there : body.listing[other]? = some text) :
      (text = line → other = position) ∧ unlabelled text ≠ line :=
    ⟨fun same => line_inj distinct (same ▸ there) listed, unlabelled_ne distinct listed there⟩
  have whole := trim_line distinct listed (line_last held visible listed)
  have starts := line_head distinct listed
  have stated : trim (unlabelled line) = unlabelled line := by
    obtain ⟨instruction', held', rfl⟩ := mem_listing listed
    obtain rfl := Option.some.inj (held.symm.trans held')
    rw [unlabelled_line distinct held, Layout.trim_statement visible]
  refine ⟨fun other text there => apart there, ?_, ?_, ?_, ?_⟩
  · rw [Location.ofText, whole]
    split <;> first | rfl | simp at starts
  · rw [CancelTarget.ofText, whole]
    split <;> first | rfl | simp at starts
  · refine (find?_eq_some_iff whole).mpr ⟨⟨line, listed, .inl rfl⟩, fun other text there named => ?_⟩
    rcases named with same | same
    · exact Nat.le_of_eq ((apart there).1 same).symm
    · exact absurd same (apart there).2
  · obtain ⟨first, found⟩ := exists_find? stated listed rfl
    obtain ⟨⟨text, there, named⟩, least⟩ := (find?_eq_some_iff stated).mp found
    refine ⟨first, found, ⟨text, there, ?_⟩, fun other text there same => least other text there (.inr same)⟩
    rcases named with same | same
    · exact absurd same.symm (unlabelled_ne distinct there listed)
    · exact same

end Body

namespace Quoting

/-- Two statements are alike, and their text has the look of a line. -/
def body : Body :=
  ⟨8, true, #[], #[⟨0, .ldstr, .string "IL_0005: pop"⟩, ⟨1, .pop, .none⟩, ⟨2, .ldstr, .string "IL_0005: pop"⟩,
    ⟨3, .pop, .none⟩, ⟨4, .ret, .none⟩], 0⟩

def line : String := "IL_0006: ldstr \"IL_0005: pop\""

theorem line_addresses_quoting : body.find? line = some 2 ∧ body.find? (unlabelled line) = some 0 := by
  have listed : body.listing[2]? = some line := by decide +kernel
  have ⟨_, _, _, itself, first, found, _, least⟩ := body.line_addresses (by decide) rfl (by decide +kernel) listed
  have stated : body.listing[0]? = some "IL_0000: ldstr \"IL_0005: pop\"" := by decide +kernel
  have start := least 0 _ stated (by decide +kernel)
  rw [Nat.le_zero.mp start] at found
  exact ⟨itself, found⟩

end Quoting

end CilWeave
