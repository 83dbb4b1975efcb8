import CodeAtlas.Proofs.Json.Texts
import Std.Data.String.ToInt

/-!
# Spelled data

The grammar of JSON, as far as data without floats go: which texts spell a value. Blanks may stand
around every item, every key and every value, so a value has many spellings, among them those with
line breaks and any indentation. The reader takes all of them.

## Which data

Floats are left out, whose shortest text is another matter, and dates, which are written as texts.
The reader has two bounds: on the nesting, and on the number of digits of an integer. `Readable`
data keep to them, and their maps have no key twice.

## The induction

A value ends where the rest of the text begins, so the statement for a value is about a longer text,

```text
read (spelling of d ++ rest) = d, rest.
```

Of the rest it must be known that it does not go on with a number (`Ended`), since a number has no
end of its own. The fuel is bounded by the length of the text: each value is shorter than the list
or the map it is in, by the brackets at least. The statement is proved together with those for items
and for entries, along the productions of the grammar.
-/

namespace CodeAtlas.Json

/-! ## Blanks -/

/-- White space between two parts of a text. -/
def Gap (cs : List Char) : Prop := ∀ c ∈ cs, isGap c = true

theorem gap_nil : Gap [] := List.forall_mem_nil _

theorem Gap.append {cs ds : List Char} (hcs : Gap cs) (hds : Gap ds) : Gap (cs ++ ds) :=
  List.forall_mem_append.mpr ⟨hcs, hds⟩

theorem skipGap_of_not_isGap {c : Char} (h : isGap c = false) (cs : List Char) :
    skipGap (c :: cs) = c :: cs := by
  rw [skipGap, List.dropWhile_cons, h, if_neg Bool.false_ne_true]

theorem skipGap_append {gaps cs : List Char} (hgaps : Gap gaps) :
    skipGap (gaps ++ cs) = skipGap cs := List.dropWhile_append_of_pos hgaps

theorem skipGap_append_cons {gap : List Char} (hgap : Gap gap) {c : Char} (hc : isGap c = false)
    (cs : List Char) : skipGap (gap ++ c :: cs) = c :: cs := by
  rw [skipGap_append hgap, skipGap_of_not_isGap hc]

/-! ## Numbers -/

/-- The text does not go on with a number. -/
def Ended (cs : List Char) : Prop :=
  ∀ c ∈ cs.head?, c.isDigit = false ∧ c ≠ '.' ∧ c ≠ 'e' ∧ c ≠ 'E'

theorem ended_nil : Ended [] := fun _ h ↦ absurd h (by simp)

theorem ended_cons {c : Char} (h : c.isDigit = false ∧ c ≠ '.' ∧ c ≠ 'e' ∧ c ≠ 'E')
    (cs : List Char) : Ended (c :: cs) := by
  intro d hd
  obtain rfl := Option.some.inj hd
  exact h

/-- White space ends a number, and if there is none the character behind it does. -/
theorem ended_append_cons {gap : List Char} (hgap : Gap gap) {c : Char}
    (h : c.isDigit = false ∧ c ≠ '.' ∧ c ≠ 'e' ∧ c ≠ 'E') (cs : List Char) :
    Ended (gap ++ c :: cs) := by
  cases gap with
  | nil => exact ended_cons h cs
  | cons g gap =>
    have hg : isGap g = true := hgap g List.mem_cons_self
    simp only [isGap, Bool.or_eq_true, beq_iff_eq] at hg
    refine ended_cons ?_ _
    rcases hg with ((rfl | rfl) | rfl) | rfl <;> decide

private theorem ne_of_isDigit {c d : Char} (hc : c.isDigit = true) (hd : d.isDigit = false) :
    c ≠ d := by
  rintro rfl
  exact Bool.noConfusion (hc.symm.trans hd)

private theorem not_isGap_of_isDigit {c : Char} (h : c.isDigit = true) : isGap c = false := by
  have hne : ∀ d, d.isDigit = false → (c == d) = false :=
    fun d hd ↦ beq_eq_false_iff_ne.mpr (ne_of_isDigit h hd)
  rw [isGap, hne ' ' (by decide), hne '\t' (by decide), hne '\n' (by decide), hne '\r' (by decide)]
  rfl

private theorem digitsValue_toDigits (n : Nat) : digitsValue (Nat.toDigits 10 n) = n :=
  Nat.ofDigitChars_toDigits (by decide) (by decide)

private theorem isDigit_toDigits (n : Nat) : ∀ c ∈ Nat.toDigits 10 n, c.isDigit = true :=
  fun _ ↦ Nat.isDigit_of_mem_toDigits (by decide) (by decide)

private theorem head?_toDigits_ne_zero {n : Nat} (h : 0 < n) :
    (Nat.toDigits 10 n).head? ≠ some '0' := by
  induction n using Nat.strongRecOn with
  | _ n ih =>
    rw [Nat.toDigits_eq_if (by decide)]
    split
    · rename_i hlt
      have hall : ∀ m < 10, 0 < m → ([Nat.digitChar m] : List Char).head? ≠ some '0' := by decide
      exact hall n hlt h
    · rename_i hge
      rw [List.head?_append_of_ne_nil _ Nat.toDigits_ne_nil]
      exact ih (n / 10) (by omega) (by omega)

/-- The digits of a number are taken as a whole. -/
private theorem wholePart?_toDigits (n : Nat) {rest : List Char} (hrest : Ended rest) :
    wholePart? (Nat.toDigits 10 n ++ rest) = some (Nat.toDigits 10 n, rest) := by
  rcases Nat.eq_zero_or_pos n with rfl | hpos
  · rfl
  · have hhead := head?_toDigits_ne_zero hpos
    have htake : rest.takeWhile Char.isDigit = [] := by
      cases rest with
      | nil => rfl
      | cons c cs => rw [List.takeWhile_cons, (hrest c rfl).1, if_neg Bool.false_ne_true]
    have hdrop : rest.dropWhile Char.isDigit = rest := by
      cases rest with
      | nil => rfl
      | cons c cs => rw [List.dropWhile_cons, (hrest c rfl).1, if_neg Bool.false_ne_true]
    have hwhole : (Nat.toDigits 10 n ++ rest).takeWhile Char.isDigit = Nat.toDigits 10 n := by
      rw [List.takeWhile_append_of_pos (isDigit_toDigits n), htake, List.append_nil]
    have hrest' : (Nat.toDigits 10 n ++ rest).dropWhile Char.isDigit = rest := by
      rw [List.dropWhile_append_of_pos (isDigit_toDigits n), hdrop]
    have hne : Nat.toDigits 10 n ≠ [] := Nat.toDigits_ne_nil
    revert hhead hwhole hrest' hne
    generalize Nat.toDigits 10 n = ds
    intro hhead hwhole hrest' hne
    cases ds with
    | nil => exact absurd rfl hne
    | cons d ds =>
      have hd : d ≠ '0' := fun h ↦ hhead (congrArg some h)
      rw [List.cons_append] at hwhole hrest' ⊢
      rw [wholePart?.eq_2 _ fun _ h ↦ hd (List.cons.inj h).1, hwhole, hrest']

/-- Nothing of what follows belongs to the number. -/
private theorem readNumber_toDigits (negative : Bool) {n : Nat}
    (h : (Nat.toDigits 10 n).length ≤ maxDigits) {rest : List Char} (hrest : Ended rest) :
    readNumber negative (Nat.toDigits 10 n ++ rest)
      = .ok (.int (if negative then -(n : Int) else n), rest) := by
  have hfraction : fractionPart rest = (none, rest) := by
    cases rest with
    | nil => rfl
    | cons c cs => exact fractionPart.eq_2 _ fun _ h ↦ (hrest c rfl).2.1 (List.cons.inj h).1
  have hexponent : exponentPart rest = (none, rest) := by
    cases rest with
    | nil => rfl
    | cons c cs =>
      have hc := (hrest c rfl).2.2
      rw [exponentPart, beq_eq_false_iff_ne.mpr hc.1, beq_eq_false_iff_ne.mpr hc.2]
      rfl
  rw [readNumber, wholePart?_toDigits n hrest]
  simp only [hfraction, hexponent, Option.isNone_none, Bool.and_self, if_true,
    if_neg (Nat.not_lt.mpr h), digitsValue_toDigits]

/-! ## Readable data -/

/-- Data without floats and dates, within the bounds of the reader, whose maps have each key once.
`depth` bounds the nesting. -/
inductive Readable : Nat → Datum → Prop
  | null {depth : Nat} : Readable depth .null
  | bool {depth : Nat} (b : Bool) : Readable depth (.bool b)
  | int {depth : Nat} {n : Int} (h : (Nat.toDigits 10 n.natAbs).length ≤ maxDigits) :
      Readable depth (.int n)
  | text {depth : Nat} (s : String) : Readable depth (.text s)
  | list {depth : Nat} {items : List Datum} (h : ∀ d ∈ items, Readable depth d) :
      Readable (depth + 1) (.list items)
  | map {depth : Nat} {entries : List (String × Datum)} (hkeys : (entries.map Prod.fst).Nodup)
      (h : ∀ e ∈ entries, Readable depth e.2) : Readable (depth + 1) (.map entries)

theorem ofList_of_nodup {α : Type} {entries : List (String × α)}
    (h : (entries.map Prod.fst).Nodup) : Props.ofList entries = entries := by
  have hinsert : ∀ (before : List (String × α)) (k : String) (v : α), k ∉ before.map Prod.fst →
      Props.insert k v before = before ++ [(k, v)] := by
    intro before k v hk
    induction before with
    | nil => rfl
    | cons e before ih =>
      rw [List.map_cons, List.mem_cons, not_or] at hk
      rw [Props.insert, beq_eq_false_iff_ne.mpr (Ne.symm hk.1), if_neg Bool.false_ne_true, ih hk.2,
        List.cons_append]
  have hfold : ∀ before after : List (String × α), ((before ++ after).map Prod.fst).Nodup →
      after.foldl (fun acc e ↦ Props.insert e.1 e.2 acc) before = before ++ after := by
    intro before after hnodup
    induction after generalizing before with
    | nil => exact (List.append_nil before).symm
    | cons e after ih =>
      have hnew : e.1 ∉ before.map Prod.fst := by
        rw [List.map_append, List.map_cons, List.nodup_append] at hnodup
        exact fun he ↦ hnodup.2.2 _ he _ List.mem_cons_self rfl
      rw [List.foldl_cons, hinsert before e.1 e.2 hnew, ih _ (by simpa using hnodup),
        List.append_assoc, List.singleton_append]
  exact hfold [] entries h

/-! ## The grammar -/

/-- A key, and blanks around it. -/
def SpellsKey (key : String) (cs : List Char) : Prop :=
  ∃ before ascii after, Gap before ∧ Gap after ∧ cs = before ++ writeText ascii key ++ after

mutual

/-- The texts that write a value. -/
inductive Spells : Datum → List Char → Prop
  | null : Spells .null "null".toList
  | bool (b : Bool) : Spells (.bool b) (if b then "true" else "false").toList
  | int (n : Int) : Spells (.int n) (toString n).toList
  | text (ascii : Bool) (s : String) : Spells (.text s) (writeText ascii s)
  | emptyList {gap : List Char} (hgap : Gap gap) : Spells (.list []) ('[' :: (gap ++ [']']))
  | list {items : List Datum} {cs : List Char} (h : SpellsItems items cs) :
      Spells (.list items) ('[' :: (cs ++ [']']))
  | emptyMap {gap : List Char} (hgap : Gap gap) :
      Spells (.map []) ('\x7b' :: (gap ++ ['\x7d']))
  | map {entries : List (String × Datum)} {cs : List Char} (h : SpellsEntries entries cs) :
      Spells (.map entries) ('\x7b' :: (cs ++ ['\x7d']))

/-- Items with commas between them, at least one. -/
inductive SpellsItems : List Datum → List Char → Prop
  | last {d : Datum} {before cs after : List Char} (hbefore : Gap before) (h : Spells d cs)
      (hafter : Gap after) : SpellsItems [d] (before ++ cs ++ after)
  | more {d : Datum} {items : List Datum} {before cs after rest : List Char}
      (hbefore : Gap before) (h : Spells d cs) (hafter : Gap after)
      (hmore : SpellsItems items rest) :
      SpellsItems (d :: items) (before ++ cs ++ after ++ ',' :: rest)

/-- Entries with commas between them, at least one. -/
inductive SpellsEntries : List (String × Datum) → List Char → Prop
  | last {k : String} {d : Datum} {key before cs after : List Char} (hkey : SpellsKey k key)
      (hbefore : Gap before) (h : Spells d cs) (hafter : Gap after) :
      SpellsEntries [(k, d)] (key ++ ':' :: (before ++ cs ++ after))
  | more {k : String} {d : Datum} {entries : List (String × Datum)}
      {key before cs after rest : List Char} (hkey : SpellsKey k key) (hbefore : Gap before)
      (h : Spells d cs) (hafter : Gap after) (hmore : SpellsEntries entries rest) :
      SpellsEntries ((k, d) :: entries) (key ++ ':' :: (before ++ cs ++ after ++ ',' :: rest))

end

variable {depth : Nat} {d : Datum} {cs : List Char}

/-- A value begins with a character that is no blank and does not end a list. -/
theorem exists_cons_of_spells (h : Spells d cs) :
    ∃ c tail, cs = c :: tail ∧ isGap c = false ∧ c ≠ ']' := by
  cases h with
  | null => exact ⟨_, _, rfl, by decide⟩
  | bool b => cases b <;> exact ⟨_, _, rfl, by decide⟩
  | int n =>
    rw [Int.toString_eq_repr, Int.repr_eq_if]
    split
    · rw [Nat.toList_repr]
      cases hds : Nat.toDigits 10 n.toNat with
      | nil => exact absurd hds Nat.toDigits_ne_nil
      | cons d ds =>
        have hd : d.isDigit = true := isDigit_toDigits _ d (hds ▸ List.mem_cons_self)
        exact ⟨d, ds, rfl, not_isGap_of_isDigit hd, ne_of_isDigit hd (by decide)⟩
    · exact ⟨'-', _, String.toList_append, by decide⟩
  | text ascii s => exact ⟨_, _, rfl, by decide⟩
  | emptyList hgap => exact ⟨'[', _, rfl, by decide⟩
  | list h => exact ⟨'[', _, rfl, by decide⟩
  | emptyMap hgap => exact ⟨'\x7b', _, rfl, by decide⟩
  | map h => exact ⟨'\x7b', _, rfl, by decide⟩

theorem skipGap_append_spelled {gap : List Char} (hgap : Gap gap) (h : Spells d cs)
    (rest : List Char) : skipGap (gap ++ cs ++ rest) = cs ++ rest := by
  obtain ⟨c, tail, rfl, hc, -⟩ := exists_cons_of_spells h
  rw [List.append_assoc, List.cons_append, skipGap_append_cons hgap hc]

/-- Items do not look like the end of the list. -/
theorem exists_cons_of_spellsItems {items : List Datum} (h : SpellsItems items cs)
    (rest : List Char) : ∃ c tail, skipGap (cs ++ rest) = c :: tail ∧ c ≠ ']' := by
  cases h with
  | last hbefore h _ =>
    obtain ⟨c, tail, rfl, -, hc⟩ := exists_cons_of_spells h
    rw [List.append_assoc, skipGap_append_spelled hbefore h]
    exact ⟨c, _, rfl, hc⟩
  | more hbefore h _ _ =>
    obtain ⟨c, tail, rfl, -, hc⟩ := exists_cons_of_spells h
    rw [List.append_assoc, List.append_assoc, skipGap_append_spelled hbefore h]
    exact ⟨c, _, rfl, hc⟩

/-- A key is read up to the colon. -/
theorem exists_readText_of_spellsKey {k : String} {key : List Char} (h : SpellsKey k key)
    (rest : List Char) : ∃ w tail, skipGap (key ++ ':' :: rest) = '"' :: w ∧
      readText w = .ok (k, tail) ∧ skipGap tail = ':' :: rest := by
  obtain ⟨before, ascii, after, hbefore, hafter, rfl⟩ := h
  obtain ⟨w, hw, hread⟩ := readText_writeText ascii k (after ++ ':' :: rest)
  refine ⟨w ++ (after ++ ':' :: rest), _, ?_, hread, skipGap_append_cons hafter (by decide) rest⟩
  rw [hw, List.append_assoc, List.append_assoc, List.cons_append,
    skipGap_append_cons hbefore (by decide)]

/-- Entries do not look like the end of the map. -/
theorem exists_cons_of_spellsEntries {entries : List (String × Datum)}
    (h : SpellsEntries entries cs) (rest : List Char) :
    ∃ tail, skipGap (cs ++ rest) = '"' :: tail := by
  cases h with
  | last hkey _ _ _ =>
    obtain ⟨w, -, hskip, -⟩ := exists_readText_of_spellsKey hkey _
    rw [List.append_assoc, List.cons_append]
    exact ⟨_, hskip⟩
  | more hkey _ _ _ _ =>
    obtain ⟨w, -, hskip, -⟩ := exists_readText_of_spellsKey hkey _
    rw [List.append_assoc, List.cons_append]
    exact ⟨_, hskip⟩

/-- Where a value starts with a digit or with a sign and a digit, it is a number. -/
private theorem readValue_toDigits (fuel depth : Nat) {n : Nat}
    (h : (Nat.toDigits 10 n).length ≤ maxDigits) {rest : List Char} (hrest : Ended rest) :
    readValue (fuel + 1) depth (Nat.toDigits 10 n ++ rest) = .ok (.int n, rest) ∧
      readValue (fuel + 1) depth ('-' :: (Nat.toDigits 10 n ++ rest)) = .ok (.int (-n), rest) := by
  have hplus := readNumber_toDigits false h hrest
  have hminus := readNumber_toDigits true h hrest
  rw [if_neg Bool.false_ne_true] at hplus
  rw [if_pos rfl] at hminus
  have hdigits := isDigit_toDigits n
  have hne : Nat.toDigits 10 n ≠ [] := Nat.toDigits_ne_nil
  revert hplus hminus hdigits hne
  generalize Nat.toDigits 10 n = ds
  intro hplus hminus hdigits hne
  cases ds with
  | nil => exact absurd rfl hne
  | cons d ds =>
    have hd : d.isDigit = true := hdigits d List.mem_cons_self
    have hbeq : ∀ c, c.isDigit = false → (c == d) = false :=
      fun c hc ↦ beq_eq_false_iff_ne.mpr (ne_of_isDigit hd hc).symm
    have hname : readName (d :: (ds ++ rest)) = none := by
      simp [readName, names, after?, hbeq 'n' (by decide), hbeq 't' (by decide),
        hbeq 'f' (by decide), hbeq 'N' (by decide), hbeq 'I' (by decide), hbeq '-' (by decide)]
    have hname' : readName ('-' :: d :: (ds ++ rest)) = none := by
      simp [readName, names, after?, hbeq 'I' (by decide)]
    rw [List.cons_append] at hplus hminus ⊢
    constructor
    · rw [readValue, hname, ← hplus]
      all_goals
        intro _ heq
        exact ne_of_isDigit hd (by decide) (List.cons.inj heq).1
    · rw [readValue, hname', ← hminus]

/-! ## Reading -/

theorem readValue_text (fuel : Nat) (ascii : Bool) (s : String) (rest : List Char) :
    readValue (fuel + 1) depth (writeText ascii s ++ rest) = .ok (.text s, rest) := by
  obtain ⟨w, hw, hread⟩ := readText_writeText ascii s rest
  rw [hw, List.cons_append, readValue, hread]
  rfl

theorem readValue_int (fuel : Nat) {n : Int} (h : (Nat.toDigits 10 n.natAbs).length ≤ maxDigits)
    {rest : List Char} (hrest : Ended rest) :
    readValue (fuel + 1) depth ((toString n).toList ++ rest) = .ok (.int n, rest) := by
  obtain ⟨hplus, hminus⟩ := readValue_toDigits fuel depth h hrest
  rw [Int.toString_eq_repr, Int.repr_eq_if]
  split
  · rename_i hn
    have habs : n.toNat = n.natAbs := by omega
    rw [Nat.toList_repr, habs, hplus, Int.natAbs_of_nonneg hn]
  · rename_i hn
    have habs : (-n).toNat = n.natAbs := by omega
    have hneg : -(n.natAbs : Int) = n := by omega
    rw [String.toList_append, Nat.toList_repr, habs]
    rw [hneg] at hminus
    exact hminus

mutual

/-- **What spells a value is read as the value**, whatever ended text follows. -/
theorem readValue_of_spells {depth : Nat} {d : Datum} {cs : List Char} (h : Spells d cs)
    (hd : Readable depth d) {fuel : Nat} (hfuel : cs.length < fuel) {rest : List Char}
    (hrest : Ended rest) :
    readValue fuel depth (cs ++ rest) = .ok (d, rest) := by
  obtain ⟨fuel, rfl⟩ : ∃ m, fuel = m + 1 := ⟨fuel - 1, by omega⟩
  cases h with
  | null => rfl
  | bool b => cases b <;> rfl
  | int n =>
    cases hd with
    | int hdigits => exact readValue_int fuel hdigits hrest
  | text ascii s => exact readValue_text fuel ascii s rest
  | emptyList hgap =>
    cases hd with
    | list _ =>
      rw [List.cons_append, List.append_assoc, List.singleton_append, readValue,
        skipGap_append_cons hgap (by decide)]
      rfl
  | list hitems =>
    cases hd with
    | list hreadable =>
      simp only [List.length_cons, List.length_append, List.length_nil, Nat.add_lt_add_iff_right]
        at hfuel
      have hread := readItems_of_spells hitems hreadable hfuel [] rest
      obtain ⟨c, tail, hskip, hc⟩ := exists_cons_of_spellsItems hitems (']' :: rest)
      rw [List.cons_append, List.append_assoc, List.singleton_append, readValue]
      rw [hskip] at hread ⊢
      split
      · rename_i heq
        exact absurd (List.cons.inj heq).1 hc
      · rw [hread]
        rfl
  | emptyMap hgap =>
    cases hd with
    | map _ _ =>
      rw [List.cons_append, List.append_assoc, List.singleton_append, readValue,
        skipGap_append_cons hgap (by decide)]
      rfl
  | map hentries =>
    cases hd with
    | map hkeys hreadable =>
      simp only [List.length_cons, List.length_append, List.length_nil, Nat.add_lt_add_iff_right]
        at hfuel
      have hread := readEntries_of_spells hentries hreadable hfuel [] rest
      obtain ⟨tail, hskip⟩ := exists_cons_of_spellsEntries hentries ('\x7d' :: rest)
      rw [List.cons_append, List.append_assoc, List.singleton_append, readValue]
      rw [hskip] at hread ⊢
      split
      · rename_i heq
        exact absurd (List.cons.inj heq).1 (by decide)
      · rw [hread]
        exact congrArg (fun es ↦ Except.ok (Datum.map es, rest)) (ofList_of_nodup hkeys)

/-- The items are read one by one, each up to the comma or the bracket behind it. -/
theorem readItems_of_spells {depth : Nat} {items : List Datum} {cs : List Char}
    (h : SpellsItems items cs) (hitems : ∀ d ∈ items, Readable depth d) {fuel : Nat}
    (hfuel : cs.length + 1 < fuel) (earlier : List Datum) (rest : List Char) :
    readItems fuel depth earlier (skipGap (cs ++ ']' :: rest))
      = .ok (earlier.reverse ++ items, rest) := by
  obtain ⟨fuel, rfl⟩ : ∃ m, fuel = m + 1 := ⟨fuel - 1, by omega⟩
  cases h with
  | @last d before cs after hbefore hd hafter =>
    rw [List.length_append, List.length_append] at hfuel
    have hvalue : cs.length < fuel := by omega
    have hread := readValue_of_spells hd (hitems d List.mem_cons_self) hvalue
      (ended_append_cons hafter (c := ']') (by decide) rest)
    rw [List.append_assoc, skipGap_append_spelled hbefore hd, readItems, hread]
    simp only [bind, Except.bind, skipGap_append_cons hafter (c := ']') rfl]
    exact congrArg (fun ds ↦ Except.ok (ds, rest)) List.reverse_cons
  | @more d items before cs after more hbefore hd hafter hmore =>
    rw [List.length_append, List.length_append, List.length_append, List.length_cons] at hfuel
    rw [List.forall_mem_cons] at hitems
    have hvalue : cs.length < fuel := by omega
    have hleft : more.length + 1 < fuel := by omega
    have hread := readValue_of_spells hd hitems.1 hvalue
      (ended_append_cons hafter (c := ',') (by decide) (more ++ ']' :: rest))
    have hnext := readItems_of_spells hmore hitems.2 hleft (d :: earlier) rest
    rw [List.append_assoc, List.append_assoc, skipGap_append_spelled hbefore hd, List.cons_append,
      readItems, hread]
    simp only [bind, Except.bind, skipGap_append_cons hafter (c := ',') rfl]
    rw [hnext, List.reverse_cons, List.append_assoc, List.singleton_append]

theorem readEntries_of_spells {depth : Nat} {entries : List (String × Datum)} {cs : List Char}
    (h : SpellsEntries entries cs) (hentries : ∀ e ∈ entries, Readable depth e.2) {fuel : Nat}
    (hfuel : cs.length + 1 < fuel) (earlier : List (String × Datum)) (rest : List Char) :
    readEntries fuel depth earlier (skipGap (cs ++ '\x7d' :: rest))
      = .ok (earlier.reverse ++ entries, rest) := by
  obtain ⟨fuel, rfl⟩ : ∃ m, fuel = m + 1 := ⟨fuel - 1, by omega⟩
  cases h with
  | @last k d key before cs after hkey hbefore hd hafter =>
    simp only [List.length_append, List.length_cons] at hfuel
    have hvalue : cs.length < fuel := by omega
    have hread := readValue_of_spells hd (hentries _ List.mem_cons_self) hvalue
      (ended_append_cons hafter (c := '\x7d') (by decide) rest)
    obtain ⟨w, tail, hskip, hname, hcolon⟩ := exists_readText_of_spellsKey hkey
      (before ++ cs ++ after ++ '\x7d' :: rest)
    rw [List.append_assoc, List.cons_append, hskip, readEntries, hname]
    simp only [bind, Except.bind, hcolon]
    rw [List.append_assoc, skipGap_append_spelled hbefore hd, hread]
    simp only [skipGap_append_cons hafter (c := '\x7d') rfl]
    exact congrArg (fun es ↦ Except.ok (es, rest)) List.reverse_cons
  | @more k d entries key before cs after more hkey hbefore hd hafter hmore =>
    simp only [List.length_append, List.length_cons] at hfuel
    rw [List.forall_mem_cons] at hentries
    have hvalue : cs.length < fuel := by omega
    have hleft : more.length + 1 < fuel := by omega
    have hread := readValue_of_spells hd hentries.1 hvalue
      (ended_append_cons hafter (c := ',') (by decide) (more ++ '\x7d' :: rest))
    have hnext := readEntries_of_spells hmore hentries.2 hleft ((k, d) :: earlier) rest
    obtain ⟨w, tail, hskip, hname, hcolon⟩ := exists_readText_of_spellsKey hkey
      (before ++ cs ++ after ++ ',' :: (more ++ '\x7d' :: rest))
    rw [List.append_assoc, List.cons_append, List.append_assoc, List.cons_append, hskip,
      readEntries, hname]
    simp only [bind, Except.bind, hcolon]
    rw [List.append_assoc, skipGap_append_spelled hbefore hd, hread]
    simp only [skipGap_append_cons hafter (c := ',') rfl]
    rw [hnext, List.reverse_cons, List.append_assoc, List.singleton_append]

end

/-- **A text that spells readable data is read as these data.** -/
theorem read_of_spells (h : Spells d cs) (hd : Readable maxDepth d) :
    read (String.ofList cs) = .ok d := by
  obtain ⟨c, tail, hhead, hgap, -⟩ := exists_cons_of_spells h
  have hvalue := readValue_of_spells h hd (Nat.lt_succ_self _) ended_nil
  rw [List.append_nil] at hvalue
  have hskip : skipGap cs = cs := by rw [hhead, skipGap_of_not_isGap hgap]
  rw [read, String.toList_ofList, readList, hskip, hvalue]
  rfl

end CodeAtlas.Json
