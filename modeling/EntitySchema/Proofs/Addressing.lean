import EntitySchema.Pointer
import Mathlib

/-! Pointers address every node. A path of names and positions is written as a
pointer, step by step, with tildes and slashes in names escaped and colons
escaped or not, and the pointer leads to the node at the end of the path. The
other way round, a pointer leads only to nodes that have a path. Escapes do not
interfere, so it is all the same whether they are undone at once or in turn. -/
namespace EntitySchema.Addressing
open Pointer Number Number.Double

/-- A step from a node to a part of it. -/
inductive Step where
  | name (key : String)
  | position (index : Nat)
  deriving DecidableEq, Repr

/-- The part of a node that a step leads to. -/
def Step.part? : Step → Json → Option Json
  | .name key, .obj fields => fields.lookup key
  | .position index, .arr items => items[index]?
  | _, _ => none

/-- The node at the end of a path. -/
def node? : Json → List Step → Option Json
  | root, [] => some root
  | root, step :: rest => (step.part? root).bind (node? · rest)

/-- A name as a pointer may show it: tildes and slashes are escaped, colons may
be, and all else stands for itself. -/
inductive SpelledName : List Char → List Char → Prop where
  | nil : SpelledName [] []
  | tilde {key text : List Char} (more : SpelledName key text) :
    SpelledName ('~' :: key) ('~' :: '0' :: text)
  | slash {key text : List Char} (more : SpelledName key text) :
    SpelledName ('/' :: key) ('~' :: '1' :: text)
  | colon {key text : List Char} (more : SpelledName key text) :
    SpelledName (':' :: key) ('%' :: '3' :: 'A' :: text)
  | plain {c : Char} {key text : List Char} (noTilde : c ≠ '~') (noSlash : c ≠ '/')
    (more : SpelledName key text) : SpelledName (c :: key) (c :: text)

/-- A step as a pointer may show it; a position stands in decimal. -/
inductive Spelled : Step → List Char → Prop where
  | name {key : String} {text : List Char} (spelled : SpelledName key.toList text) :
    Spelled (.name key) text
  | position (index : Nat) : Spelled (.position index) (toString index).toList

/-- The pointer made of the steps as they are shown. -/
def pointerOf (texts : List (List Char)) : String :=
  String.ofList ("#/".toList ++ ['/'].intercalate texts)

variable {root node next : Json} {path : List Step} {key text : List Char}

section Names

private theorem spelled_unslashed (spelled : SpelledName key text) : '/' ∉ text := by
  induction spelled with
  | nil => simp
  | tilde _ ih => simp [ih]
  | slash _ ih => simp [ih]
  | colon _ ih => simp [ih]
  | plain _ noSlash _ ih => simp [ih, Ne.symm noSlash]

/-- Only a character that is not escaped shows first as one other than a tilde
or a percent sign. -/
private theorem spelled_plain {c : Char} (noTilde : c ≠ '~') (noPercent : c ≠ '%')
    (spelled : SpelledName key (c :: text)) : ∃ rest, key = c :: rest ∧ SpelledName rest text := by
  cases spelled with
  | tilde => exact absurd rfl noTilde
  | slash => exact absurd rfl noTilde
  | colon => exact absurd rfl noPercent
  | plain _ _ more => exact ⟨_, rfl, more⟩

/-- A name that does not hold an escaped colon of its own is read back. -/
theorem unescape_spelled (spelled : SpelledName key text) (clean : ¬"%3A".toList <:+: key) :
    unescape text = key := by
  have tail {c : Char} {rest : List Char} (clean : ¬"%3A".toList <:+: c :: rest) :
      ¬"%3A".toList <:+: rest := fun held => clean (List.infix_cons held)
  induction spelled with
  | nil => rfl
  | tilde _ ih => rw [unescape, ih (tail clean)]
  | slash _ ih => rw [unescape, ih (tail clean)]
  | colon _ ih => rw [unescape, ih (tail clean)]
  | plain noTilde noSlash more ih =>
    rw [unescape, ih (tail clean)]
    · exact fun _ tilde => absurd tilde noTilde
    · exact fun _ tilde => absurd tilde noTilde
    · -- A percent sign with `3A` behind it would be one of the name.
      rintro text rfl rfl
      obtain ⟨_, rfl, inner⟩ := spelled_plain (by decide) (by decide) more
      obtain ⟨rest, rfl, _⟩ := spelled_plain (by decide) (by decide) inner
      exact clean ⟨[], rest, rfl⟩

end Names

section Replacing

variable {old new rest : List Char} {c : Char}

/-- The text with every occurrence of `old` replaced, from left to right. The
first `skip` characters belong to an occurrence that is replaced already. -/
def replaceFrom (old new : List Char) : Nat → List Char → List Char
  | _, [] => []
  | skip + 1, _ :: rest => replaceFrom old new skip rest
  | 0, c :: rest =>
    if old.isPrefixOf (c :: rest) then new ++ replaceFrom old new (old.length - 1) rest
    else c :: replaceFrom old new 0 rest

/-- The text with every occurrence of `old` replaced. -/
def replaceAll (old new text : List Char) : List Char :=
  replaceFrom old new 0 text

private theorem replaceFrom_skips (skipped rest : List Char) :
    replaceFrom old new skipped.length (skipped ++ rest) = replaceFrom old new 0 rest := by
  induction skipped with
  | nil => rfl
  | cons c more ih => exact ih

private theorem replaceFrom_hit (filled : old ≠ []) (rest : List Char) :
    replaceFrom old new 0 (old ++ rest) = new ++ replaceFrom old new 0 rest := by
  obtain ⟨c, more, rfl⟩ := List.exists_cons_of_ne_nil filled
  have occurs : (c :: more).isPrefixOf (c :: (more ++ rest)) = true :=
    List.isPrefixOf_iff_prefix.mpr ⟨rest, rfl⟩
  rw [List.cons_append, replaceFrom, if_pos occurs]
  exact congrArg (new ++ ·) (replaceFrom_skips more rest)

private theorem replaceFrom_miss (absent : ¬old <+: c :: rest) :
    replaceFrom old new 0 (c :: rest) = c :: replaceFrom old new 0 rest := by
  rw [replaceFrom, if_neg (mt List.isPrefixOf_iff_prefix.mp absent)]

/-- A character in front that no replacement starts with was there before. -/
private theorem replaceFrom_head {text : List Char} (filled : old ≠ []) (shown : new ≠ [])
    (other : new.head? ≠ some c) (same : replaceFrom old new 0 text = c :: rest) :
    ∃ more, text = c :: more ∧ rest = replaceFrom old new 0 more := by
  by_cases occurs : old <+: text
  · obtain ⟨more, rfl⟩ := occurs
    obtain ⟨d, further, rfl⟩ := List.exists_cons_of_ne_nil shown
    rw [replaceFrom_hit filled, List.cons_append] at same
    exact absurd (congrArg some (List.cons.inj same).1) other
  · cases text with
    | nil => cases same
    | cons d more =>
      rw [replaceFrom_miss occurs] at same
      obtain ⟨rfl, rfl⟩ := List.cons.inj same
      exact ⟨more, rfl, rfl⟩

/-- Undoing all escapes at once is the same as undoing them one after the other,
first those of slashes, then those of tildes, then those of colons: what one of
them leaves never makes an escape for the next. -/
theorem unescape_in_turn (text : List Char) :
    unescape text = replaceAll ['%', '3', 'A'] [':']
      (replaceAll ['~', '0'] ['~'] (replaceAll ['~', '1'] ['/'] text)) := by
  unfold replaceAll
  fun_induction unescape text with
  | case1 rest ih => simp [replaceFrom, ih]
  | case2 rest ih => simp [replaceFrom, ih]
  | case3 rest ih => simp [replaceFrom, ih]
  | case4 c rest noSlash noTilde noColon ih =>
    have first : ¬['~', '1'] <+: c :: rest := by
      rintro ⟨more, same⟩
      obtain ⟨rfl, rfl⟩ := List.cons.inj same
      exact noSlash more rfl rfl
    have second : ¬['~', '0'] <+: c :: replaceFrom ['~', '1'] ['/'] 0 rest := by
      rintro ⟨more, same⟩
      obtain ⟨rfl, tail⟩ := List.cons.inj same
      obtain ⟨_, rfl, _⟩ := replaceFrom_head (by simp) (by simp) (by simp) tail.symm
      exact noTilde _ rfl rfl
    have third : ¬['%', '3', 'A'] <+:
        c :: replaceFrom ['~', '0'] ['~'] 0 (replaceFrom ['~', '1'] ['/'] 0 rest) := by
      rintro ⟨more, same⟩
      obtain ⟨rfl, tail⟩ := List.cons.inj same
      obtain ⟨_, three, letter⟩ := replaceFrom_head (by simp) (by simp) (by simp) tail.symm
      obtain ⟨_, rfl, rfl⟩ := replaceFrom_head (by simp) (by simp) (by simp) three
      obtain ⟨_, within, _⟩ := replaceFrom_head (by simp) (by simp) (by simp) letter.symm
      obtain ⟨_, rfl, _⟩ := replaceFrom_head (by simp) (by simp) (by simp) within
      exact noColon _ rfl rfl
    rw [replaceFrom_miss first, replaceFrom_miss second, replaceFrom_miss third, ih]
  | case5 => rfl

end Replacing

section Positions

private theorem position_text (index : Nat) :
    (toString index).toList = Nat.toDigits 10 index := by
  rw [Nat.toString_eq_repr, Nat.toList_repr]

private theorem position_digit {index : Nat} {c : Char} (member : c ∈ Nat.toDigits 10 index) :
    c.isDigit = true :=
  Nat.isDigit_of_mem_toDigits (by decide) (by decide) member

private theorem digit_value {c : Char} (digit : c.isDigit = true) :
    Text.digitValue? c = some (c.toNat - '0'.toNat) := by
  have bounds : 48 ≤ c.toNat ∧ c.toNat ≤ 57 := by
    rw [Char.isDigit, Bool.and_eq_true, decide_eq_true_iff, decide_eq_true_iff] at digit
    exact digit
  rw [Text.digitValue?, Text.digitZeros, List.find?_cons_of_pos (by simp; omega)]
  rfl

private theorem position_decimal (index : Nat) :
    Text.isDecimal (Nat.toDigits 10 index) = true := by
  have filled : (Nat.toDigits 10 index).isEmpty = false :=
    List.isEmpty_eq_false_iff.mpr Nat.toDigits_ne_nil
  rw [Text.isDecimal, filled, Bool.not_false, Bool.true_and, List.all_eq_true]
  intro c member
  rw [digit_value (position_digit member), Option.isSome_some]

/-- A position in decimal is read back. -/
private theorem position_value (index : Nat) :
    Text.decimalValue (Nat.toDigits 10 index) = index := by
  have values : (Nat.toDigits 10 index).filterMap Text.digitValue? =
      (Nat.toDigits 10 index).map fun c => c.toNat - '0'.toNat := by
    rw [← List.filterMap_eq_map]
    exact List.filterMap_congr fun c member => digit_value (position_digit member)
  calc Text.decimalValue (Nat.toDigits 10 index)
      = Nat.ofDigitChars 10 (Nat.toDigits 10 index) 0 := by
        rw [Text.decimalValue, values, Text.ofDigits, List.foldl_map, Nat.ofDigitChars]
    _ = index := Nat.ofDigitChars_ten_toDigits

/-- Digits stand for themselves in a pointer. -/
private theorem position_spelled (index : Nat) :
    SpelledName (Nat.toDigits 10 index) (Nat.toDigits 10 index) ∧
      ¬"%3A".toList <:+: Nat.toDigits 10 index := by
  have each : ∀ digits : List Char, (∀ c ∈ digits, c.isDigit = true) →
      SpelledName digits digits := by
    intro digits all
    induction digits with
    | nil => exact .nil
    | cons c rest ih =>
      obtain ⟨digit, others⟩ := List.forall_mem_cons.mp all
      refine .plain ?_ ?_ (ih others)
      all_goals
        rintro rfl
        cases digit
  refine ⟨each _ fun c => position_digit, ?_⟩
  intro held
  have percent := position_digit (held.subset (by decide : '%' ∈ "%3A".toList))
  cases percent

end Positions

section Steps

variable {step : Step}

/-- A step that a pointer can take: its name is no text with an escaped colon in
it, and its position has no more digits than an integer may have. -/
def Step.Writable : Step → Prop
  | .name key => ¬"%3A".toList <:+: key.toList
  | .position index => digitCount index ≤ digitLimit

private theorem step_unslashed (spelled : Spelled step text) : '/' ∉ text := by
  cases spelled with
  | name spelled => exact spelled_unslashed spelled
  | position index =>
    rw [position_text]
    exact spelled_unslashed (position_spelled index).1

/-- A step as it is shown leads where the step leads. -/
private theorem child_spelled (spelled : Spelled step text) (writable : step.Writable)
    (leads : step.part? root = some next) : child? (unescape text) root = .ok (some next) := by
  cases spelled with
  | name spelled =>
    cases root with
    | obj fields =>
      rw [unescape_spelled spelled writable, child?, String.ofList_toList]
      exact congrArg Except.ok leads
    | _ => cases leads
  | position index =>
    cases root with
    | arr items =>
      have readable : ¬digitLimit < (Nat.toDigits 10 index).length := not_lt.mpr writable
      have shown := position_spelled index
      rw [position_text, unescape_spelled shown.1 shown.2, child?, position_decimal,
        if_neg (by simp), if_neg readable, position_value]
      exact congrArg Except.ok leads
    | _ => cases leads

/-- A path as it is shown leads where the path leads. -/
private theorem descend_spelled {texts : List (List Char)}
    (spelled : List.Forall₂ Spelled path texts) (writable : ∀ step ∈ path, step.Writable)
    (leads : node? root path = some node) :
    descend root (texts.map unescape) = .ok (some node) := by
  induction spelled generalizing root with
  | nil => exact congrArg Except.ok leads
  | cons first _ ih =>
    obtain ⟨able, others⟩ := List.forall_mem_cons.mp writable
    obtain ⟨next, part, onward⟩ := Option.bind_eq_some_iff.mp leads
    rw [List.map_cons, descend, child_spelled first able part]
    exact ih others onward

/-- The steps of a pointer are those it was made of. -/
private theorem steps_pointerOf {texts : List (List Char)}
    (spelled : List.Forall₂ Spelled path texts) (filled : path ≠ []) :
    steps (pointerOf texts).toList = texts.map unescape := by
  have clean : ∀ text ∈ texts, '/' ∉ text := by
    clear filled
    induction spelled with
    | nil => simp
    | cons first _ ih => exact List.forall_mem_cons.mpr ⟨step_unslashed first, ih⟩
  have stepped : texts ≠ [] := by
    rintro rfl
    cases spelled
    exact filled rfl
  rw [pointerOf, String.toList_ofList]
  exact congrArg (List.map unescape) (List.splitOn_intercalate '/' clean stepped)

/-- Wherever a pointer goes, a step goes. -/
private theorem child_part {text : List Char} (found : child? text root = .ok (some next)) :
    ∃ step : Step, step.part? root = some next := by
  cases root with
  | obj fields => exact ⟨.name (String.ofList text), Except.ok.inj found⟩
  | arr items =>
    rw [child?] at found
    split_ifs at found with noPosition
    · cases found
    · exact ⟨.position (Text.decimalValue text), Except.ok.inj found⟩
  | _ => cases found

private theorem descend_node {texts : List (List Char)}
    (found : descend root texts = .ok (some node)) :
    ∃ path, path.length = texts.length ∧ node? root path = some node := by
  induction texts generalizing root with
  | nil => exact ⟨[], rfl, Except.ok.inj found⟩
  | cons text rest ih =>
    rw [descend] at found
    split at found
    · cases found
    · cases found
    · rename_i next child
      obtain ⟨step, part⟩ := child_part child
      obtain ⟨path, same, onward⟩ := ih found
      exact ⟨step :: path, by simp [same], by rw [node?, part]; exact onward⟩

end Steps

/-- **Every node has a pointer, and pointers lead to nodes only.** Let a path of
names and positions lead from the root to a node, with no `%3A` in its names and
no position longer than integers may be (for which an array would need more than
10 ^ 4300 items). However the steps are spelled, the pointer made of them finds
that node. And what any pointer finds is at the end of a path. -/
theorem nodes_addressed (root : Json) :
    (∀ path texts node, path ≠ [] → node? root path = some node →
      (∀ step ∈ path, step.Writable) → List.Forall₂ Spelled path texts →
        get? root (pointerOf texts) = .ok (some node)) ∧
      ∀ pointer node, "#/".toList <+: pointer.toList → get? root pointer = .ok (some node) →
        ∃ path, path ≠ [] ∧ node? root path = some node := by
  constructor
  · intro path texts node filled leads writable spelled
    rw [get?, steps_pointerOf spelled filled]
    exact descend_spelled spelled writable leads
  · rintro pointer node ⟨rest, begins⟩ found
    obtain ⟨path, same, leads⟩ := descend_node found
    refine ⟨path, ?_, leads⟩
    rintro rfl
    rw [← begins, show "#/".toList ++ rest = '#' :: '/' :: rest from rfl, steps, List.length_map]
      at same
    exact List.splitOn_ne_nil _ _ (List.length_eq_zero_iff.mp same.symm)

/-- A document with names that have to be escaped, one above the other. -/
def escapedNames : Json :=
  .obj [("a/b", .obj [("~1", .arr [0, .obj [("x:y", true), ("", 1)]])])]

/-- The innermost value, with its colon escaped. -/
theorem nodes_addressed_escaped :
    node? escapedNames [.name "a/b", .name "~1", .position 1, .name "x:y"] = some (.bool true) ∧
      get? escapedNames "#/a~1b/~01/1/x%3Ay" = .ok (some (.bool true)) := by
  have leads : node? escapedNames [.name "a/b", .name "~1", .position 1, .name "x:y"] =
      some (.bool true) := by decide
  have slashed : SpelledName ['a', '/', 'b'] ['a', '~', '1', 'b'] :=
    .plain (by decide) (by decide) (.slash (.plain (by decide) (by decide) .nil))
  have tilded : SpelledName ['~', '1'] ['~', '0', '1'] :=
    .tilde (.plain (by decide) (by decide) .nil)
  have coloned : SpelledName ['x', ':', 'y'] ['x', '%', '3', 'A', 'y'] :=
    .plain (by decide) (by decide) (.colon (.plain (by decide) (by decide) .nil))
  have spelled : List.Forall₂ Spelled [.name "a/b", .name "~1", .position 1, .name "x:y"]
      [['a', '~', '1', 'b'], ['~', '0', '1'], ['1'], ['x', '%', '3', 'A', 'y']] :=
    .cons (.name slashed) (.cons (.name tilded) (.cons (.position 1) (.cons (.name coloned) .nil)))
  have shown : pointerOf [['a', '~', '1', 'b'], ['~', '0', '1'], ['1'], ['x', '%', '3', 'A', 'y']] =
      "#/a~1b/~01/1/x%3Ay" := by decide
  have writable : ∀ step ∈ [Step.name "a/b", .name "~1", .position 1, .name "x:y"],
      step.Writable := by
    simp only [List.forall_mem_cons, List.not_mem_nil, false_implies, implies_true, and_true,
      Step.Writable]
    exact ⟨by decide, by decide, by decide, by decide⟩
  have found := (nodes_addressed escapedNames).1 _ _ _ (by simp) leads writable spelled
  rw [shown] at found
  exact ⟨leads, found⟩

end EntitySchema.Addressing
