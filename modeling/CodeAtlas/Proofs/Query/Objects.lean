import CodeAtlas.Proofs.Json.Limits
import CodeAtlas.Proofs.Json.RoundTrip
import CodeAtlas.Proofs.Text.Marks

/-!
# Objects in replies

A model puts prose, a fenced block or both around the object it was asked for. The object is looked
for between the first opening and the last closing brace of the reply. If the text before it has no
opening brace and the text behind it no closing one, this span is the object, whatever braces there
are in its texts and in the objects inside it. So an object in any spelling is found whole
(`object?_spelled`).

What the span holds is decided by reading it. A span that is read is an object, because it begins
with a brace. A span that cannot be read is no object, unless it breaks one of the bounds of the
reader: such a reply is `WithinLimits` no more. It takes many brackets or many digits to get there
(`withinLimits_of_countP`).
-/

namespace CodeAtlas.Reply

open Json (Readable Spells maxDepth)

/-! ## Spans -/

/-- The part of a text from its first opening to its last closing brace. -/
def IsObjectSpan (text span : List Char) : Prop :=
  ∃ before inner after, '\x7b' ∉ before ∧ '\x7d' ∉ after ∧
    span = '\x7b' :: (inner ++ ['\x7d']) ∧ text = before ++ (span ++ after)

variable {text span : List Char}

theorem objectSpan?_of_isObjectSpan (h : IsObjectSpan text span) :
    objectSpan? text = some span := by
  obtain ⟨before, inner, after, hbefore, hafter, rfl, rfl⟩ := h
  have hopening : (before ++ ('\x7b' :: (inner ++ ['\x7d']) ++ after)).dropWhile (· != '\x7b')
      = '\x7b' :: (inner ++ ['\x7d']) ++ after := by
    rw [List.cons_append, dropWhile_append_cons (by decide), List.dropWhile_eq_nil_iff.mpr,
      List.nil_append]
    intro c hc
    exact bne_iff_ne.mpr fun heq ↦ hbefore (heq ▸ hc)
  have hclosing : ('\x7b' :: (inner ++ ['\x7d']) ++ after).reverse.dropWhile (· != '\x7d')
      = ('\x7b' :: (inner ++ ['\x7d'])).reverse := by
    rw [← List.cons_append, List.reverse_append, List.reverse_append, List.reverse_singleton,
      List.singleton_append, dropWhile_append_cons (by decide), List.dropWhile_eq_nil_iff.mpr,
      List.nil_append]
    intro c hc
    exact bne_iff_ne.mpr fun heq ↦ hafter (heq ▸ List.mem_reverse.mp hc)
  rw [objectSpan?, hopening, hclosing, List.reverse_reverse]
  rfl

theorem isObjectSpan_of_objectSpan? (h : objectSpan? text = some span) :
    IsObjectSpan text span := by
  generalize hopened : text.dropWhile (· != '\x7b') = opened at h
  obtain ⟨rfl, hne⟩ : opened.rdropWhile (· != '\x7d') = span ∧ span ≠ [] := by
    rw [objectSpan?, hopened] at h
    split at h
    · exact absurd h (by simp)
    · rename_i hfull
      obtain rfl := Option.some.inj h
      exact ⟨rfl, fun hnil ↦ hfull (List.isEmpty_iff.mpr hnil)⟩
  have hbefore := List.takeWhile_append_dropWhile (p := (· != '\x7b')) (l := text)
  have hafter := List.rdropWhile_append_rtakeWhile (p := (· != '\x7d')) (l := opened)
  have hfirst : ∀ c rest, opened = c :: rest → c = '\x7b' := by
    intro c rest heq
    have hhead := List.head?_dropWhile_not (· != '\x7b') text
    rw [hopened, heq] at hhead
    simpa using hhead
  have hlast : (opened.rdropWhile (· != '\x7d')).getLast hne = '\x7d' := by
    simpa using List.rdropWhile_last_not (· != '\x7d') opened hne
  have hspan := List.dropLast_append_getLast hne
  rw [hlast] at hspan
  rw [← hspan, List.append_assoc] at hafter
  cases hinit : (opened.rdropWhile (· != '\x7d')).dropLast with
  | nil =>
    -- The opening brace would be the closing one.
    rw [hinit] at hafter
    exact absurd (hfirst _ _ hafter.symm) (by decide)
  | cons c inner =>
    rw [hinit] at hafter hspan
    obtain rfl := hfirst _ _ hafter.symm
    refine ⟨text.takeWhile (· != '\x7b'), inner, opened.rtakeWhile (· != '\x7d'), ?_, ?_,
      hspan.symm, ?_⟩
    · exact fun hmem ↦ absurd (List.mem_takeWhile_imp hmem) (by decide)
    · exact fun hmem ↦ absurd (List.mem_rtakeWhile_imp hmem) (by decide)
    · rw [← hspan, List.append_assoc, hafter, ← hopened, hbefore]

theorem objectSpan?_eq_some_iff : objectSpan? text = some span ↔ IsObjectSpan text span :=
  ⟨isObjectSpan_of_objectSpan?, objectSpan?_of_isObjectSpan⟩

/-! ## What a span holds -/

/-- What begins with a brace is a map, if it is anything. -/
theorem exists_map_of_readValue {fuel depth : Nat} {cs rest : List Char} {d : Datum}
    (h : Json.readValue fuel depth ('\x7b' :: cs) = .ok (d, rest)) :
    ∃ entries, d = .map entries := by
  cases fuel with
  | zero => exact absurd h (by simp [Json.readValue])
  | succ fuel =>
    cases depth with
    | zero => exact absurd h (by simp [Json.readValue])
    | succ depth =>
      rw [Json.readValue] at h
      split at h
      · obtain ⟨rfl, -⟩ := Prod.mk.inj (Except.ok.inj h)
        exact ⟨_, rfl⟩
      · cases hentries : Json.readEntries fuel depth [] (Json.skipGap cs) with
        | error e =>
          rw [hentries] at h
          exact absurd h (by simp [bind, Except.bind])
        | ok p =>
          rw [hentries] at h
          obtain ⟨rfl, -⟩ := Prod.mk.inj (Except.ok.inj h)
          exact ⟨_, rfl⟩

theorem exists_map_of_read (hspan : IsObjectSpan text span) {d : Datum}
    (h : Json.read (String.ofList span) = .ok d) : ∃ entries, d = .map entries := by
  obtain ⟨before, inner, after, -, -, rfl, -⟩ := hspan
  rw [Json.read, String.toList_ofList, Json.readList, Json.skipGap_of_not_isGap (by decide)] at h
  cases hvalue : Json.readValue (('\x7b' :: (inner ++ ['\x7d'])).length + 1) maxDepth
      ('\x7b' :: (inner ++ ['\x7d'])) with
  | error e =>
    rw [hvalue] at h
    exact absurd h (by simp [bind, Except.bind])
  | ok p =>
    obtain ⟨x, rest⟩ := p
    obtain ⟨entries, rfl⟩ := exists_map_of_readValue hvalue
    rw [hvalue] at h
    simp only [bind, Except.bind] at h
    split at h
    · exact ⟨entries, (Except.ok.inj h).symm⟩
    · exact absurd h (by simp)

section Object

variable {reply : String}

theorem object?_of_isObjectSpan (h : IsObjectSpan reply.toList span) :
    object? reply = match Json.read (String.ofList span) with
      | .ok (.map entries) => .ok (some entries)
      | .ok _ => .ok none
      | .error .malformed => .ok none
      | .error e => .error e := by
  have hspan := objectSpan?_of_isObjectSpan h
  unfold object?
  generalize objectSpan? reply.toList = found at hspan ⊢
  subst hspan
  rfl

theorem object?_of_forall_not (h : ∀ span, ¬ IsObjectSpan reply.toList span) :
    object? reply = .ok none := by
  have hnone : objectSpan? reply.toList = none := by
    cases hspan : objectSpan? reply.toList with
    | none => rfl
    | some span => exact absurd (objectSpan?_eq_some_iff.mp hspan) (h span)
  rw [object?, hnone]

/-- An object is found exactly if the span is read, and it is what is read. -/
theorem object?_eq_some_iff {entries : Props} : object? reply = .ok (some entries) ↔
    ∃ span, IsObjectSpan reply.toList span ∧
      Json.read (String.ofList span) = .ok (.map entries) := by
  constructor
  · intro h
    by_cases hspan : ∃ span, IsObjectSpan reply.toList span
    · obtain ⟨span, hspan⟩ := hspan
      refine ⟨span, hspan, ?_⟩
      rw [object?_of_isObjectSpan hspan] at h
      cases hread : Json.read (String.ofList span) with
      | ok d =>
        obtain ⟨found, rfl⟩ := exists_map_of_read hspan hread
        rw [hread] at h
        obtain rfl := Option.some.inj (Except.ok.inj h)
        rfl
      | error e => cases e <;> exact absurd (hread ▸ h) (by simp)
    · rw [object?_of_forall_not (not_exists.mp hspan)] at h
      exact absurd h (by simp)
  · rintro ⟨span, hspan, hread⟩
    rw [object?_of_isObjectSpan hspan, hread]

/-- The span of a reply breaks none of the bounds of the reader: if it cannot be read, it is no
document. -/
def WithinLimits (reply : String) : Prop :=
  ∀ span, IsObjectSpan reply.toList span → ∀ e, Json.read (String.ofList span) = .error e →
    e = .malformed

/-- A reply with few brackets and few digits is within the limits. -/
theorem withinLimits_of_countP (hdepth : reply.toList.countP Json.isOpening ≤ maxDepth)
    (hdigits : reply.toList.countP Char.isDigit ≤ Json.maxDigits) : WithinLimits reply := by
  rintro span ⟨before, inner, after, -, -, -, htext⟩ e hread
  have hspan : span.Sublist reply.toList := by
    rw [htext]
    exact (List.sublist_append_left span after).trans (List.sublist_append_right before _)
  refine Json.eq_malformed_of_read ?_ ?_ hread <;> rw [String.toList_ofList]
  · exact hspan.countP_le.trans hdepth
  · exact hspan.countP_le.trans hdigits

/-- Within the limits the search for an object does not fail. -/
theorem exists_object? (h : WithinLimits reply) : ∃ found, object? reply = .ok found := by
  by_cases hspan : ∃ span, IsObjectSpan reply.toList span
  · obtain ⟨span, hspan⟩ := hspan
    rw [object?_of_isObjectSpan hspan]
    cases hread : Json.read (String.ofList span) with
    | ok d =>
      obtain ⟨entries, rfl⟩ := exists_map_of_read hspan hread
      exact ⟨some entries, rfl⟩
    | error e =>
      obtain rfl := h span hspan e hread
      exact ⟨none, rfl⟩
  · exact ⟨none, object?_of_forall_not (not_exists.mp hspan)⟩

/-- Within the limits there is no object exactly if there is no span or the span is no document. -/
theorem object?_eq_none_iff (h : WithinLimits reply) : object? reply = .ok none ↔
    ∀ span, IsObjectSpan reply.toList span → ∀ d, Json.read (String.ofList span) ≠ .ok d := by
  constructor
  · intro hnone span hspan d hread
    obtain ⟨entries, rfl⟩ := exists_map_of_read hspan hread
    rw [object?_eq_some_iff.mpr ⟨span, hspan, hread⟩] at hnone
    exact absurd hnone (by simp)
  · intro hnot
    obtain ⟨found, hfound⟩ := exists_object? h
    cases found with
    | none => exact hfound
    | some entries =>
      obtain ⟨span, hspan, hread⟩ := object?_eq_some_iff.mp hfound
      exact absurd hread (hnot span hspan _)

/-- What spells an object is a span, if nothing around it looks like a part of one. -/
theorem object?_of_spells {before after : List Char} {written : List Char} {entries : Props}
    (hbefore : '\x7b' ∉ before) (hafter : '\x7d' ∉ after) (hspells : Spells (.map entries) written)
    (hreadable : Readable maxDepth (.map entries)) :
    object? (String.ofList (before ++ (written ++ after))) = .ok (some entries) := by
  obtain ⟨inner, hwritten⟩ : ∃ inner, written = '\x7b' :: (inner ++ ['\x7d']) := by
    cases hspells with
    | emptyMap _ => exact ⟨_, rfl⟩
    | map _ => exact ⟨_, rfl⟩
  refine object?_eq_some_iff.mpr ⟨written, ?_, Json.read_of_spells hspells hreadable⟩
  rw [String.toList_ofList]
  exact ⟨before, inner, after, hbefore, hafter, hwritten, rfl⟩

end Object

/-- **An object is found in whatever stands around it**, if no opening brace comes before it and no
closing one behind it. It may be spelled with any blanks between its parts; in particular it may
have been written in any style, and a style that sorts changes the order of the entries only. Where
the text between the braces is no document, or there is none, no object is found. -/
theorem object?_spelled :
    (∀ (before after : String) (entries : Props), '\x7b' ∉ before.toList → '\x7d' ∉ after.toList →
      Readable maxDepth (.map entries) →
      (∀ written : String, Spells (.map entries) written.toList →
        object? (before ++ written ++ after) = .ok (some entries)) ∧
      (∀ style : Json.Style, style.IsPlain → ∃ found, style.arranged (.map entries) = .map found ∧
        object? (before ++ Json.write style (.map entries) ++ after) = .ok (some found))) ∧
    (∀ reply, WithinLimits reply → (object? reply = .ok none ↔
      ∀ span, IsObjectSpan reply.toList span → ∀ d, Json.read (String.ofList span) ≠ .ok d)) := by
  have hfind : ∀ (before written after : String) (entries : Props), '\x7b' ∉ before.toList →
      '\x7d' ∉ after.toList → Spells (.map entries) written.toList →
      Readable maxDepth (.map entries) →
      object? (before ++ written ++ after) = .ok (some entries) := by
    intro before written after entries hbefore hafter hspells hreadable
    have htext : before ++ written ++ after
        = String.ofList (before.toList ++ (written.toList ++ after.toList)) := by
      rw [← String.toList_inj, String.toList_ofList, String.toList_append, String.toList_append,
        List.append_assoc]
    rw [htext]
    exact object?_of_spells hbefore hafter hspells hreadable
  refine ⟨fun before after entries hbefore hafter hreadable ↦ ⟨fun written hspells ↦ ?_,
    fun style hstyle ↦ ?_⟩, fun reply ↦ object?_eq_none_iff⟩
  · exact hfind before written after entries hbefore hafter hspells hreadable
  · have hspells := Json.spells_writeAt hstyle hreadable 0
    have harranged : Readable maxDepth (style.arranged (.map entries)) := hreadable.arranged
    obtain ⟨found, hfound⟩ : ∃ found, style.arranged (.map entries) = .map found :=
      ⟨_, style.arranged_map entries⟩
    rw [hfound] at hspells harranged
    refine ⟨found, hfound, hfind before _ after found hbefore hafter ?_ harranged⟩
    rw [Json.write, String.toList_ofList]
    exact hspells

/-- Braces in texts and in inner objects mislead no one, nor does a fence around the object. -/
theorem object?_spelled_fenced :
    let entries : Props := [("decision", .text "\x7d or \x7b"),
      ("summary", .map [("\x7d", .list [.int (-7), .null])])]
    object? ("Sure:\n\x60\x60\x60json\n" ++ Json.write .pretty (.map entries)
        ++ "\n\x60\x60\x60 (no \x7b left)") = .ok (some entries) ∧
      object? ("Empty, then: " ++ "\x7b\t\x7d" ++ " or \x7b") = .ok (some []) ∧
      object? "\x7b'decision': 'graph'\x7d" = .ok none := by
  intro entries
  have hreadable : Readable maxDepth (.map entries) := by
    refine .map (by decide) ?_
    intro e he
    simp only [entries, List.mem_cons, List.not_mem_nil, or_false] at he
    obtain rfl | rfl := he
    · exact .text _
    · refine .map (by decide) (List.forall_mem_singleton.mpr (.list ?_))
      exact List.forall_mem_cons.mpr ⟨.int (by decide), List.forall_mem_singleton.mpr .null⟩
  have hgap : Json.Gap ['\t'] := List.forall_mem_singleton.mpr rfl
  have hempty : Readable maxDepth (.map []) := .map List.nodup_nil (List.forall_mem_nil _)
  refine ⟨?_, ?_, ?_⟩
  · obtain ⟨found, harranged, hfound⟩ := (object?_spelled.1 "Sure:\n\x60\x60\x60json\n"
      "\n\x60\x60\x60 (no \x7b left)" entries (by decide) (by decide) hreadable).2 .pretty
      Json.isPlain_pretty
    rw [Json.Style.arranged_of_unsorted rfl] at harranged
    obtain rfl := Datum.map.inj harranged
    exact hfound
  · exact (object?_spelled.1 "Empty, then: " " or \x7b" [] (by decide) (by decide) hempty).1
      "\x7b\t\x7d" (.emptyMap hgap)
  · refine (object?_spelled.2 _ (withinLimits_of_countP (by decide) (by decide))).mpr ?_
    intro span hspan d hread
    have hspan' : span = "\x7b'decision': 'graph'\x7d".toList :=
      Option.some.inj ((objectSpan?_of_isObjectSpan hspan).symm.trans rfl)
    have hmalformed : Json.read "\x7b'decision': 'graph'\x7d" = .error .malformed := rfl
    rw [hspan', String.ofList_toList, hmalformed] at hread
    exact absurd hread (by simp)

end CodeAtlas.Reply
