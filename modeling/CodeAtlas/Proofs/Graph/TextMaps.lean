import CodeAtlas.Proofs.Graph.Textual
import Mathlib.Data.Finmap
import Mathlib.Data.String.Basic

/-!
# Maps of texts

The keys and attributes that the store is given are maps from texts to texts. As entries they come
in some order, and the store keeps that order, but nothing it answers depends on it. Entries stand
for a finite map, and two lists of entries stand for the same map if and only if they are the same
once they are sorted, which is how they get into an id.
-/

namespace CodeAtlas

/-- A finite map from texts to texts. -/
abbrev TextMap := Finmap fun _ : String ↦ String

/-- Does the map have every item of another one? -/
def TextMap.Includes (m items : TextMap) : Prop := ∀ k ∈ items.keys, m.lookup k = items.lookup k

instance (m items : TextMap) : Decidable (m.Includes items) :=
  inferInstanceAs (Decidable (∀ k ∈ items.keys, m.lookup k = items.lookup k))

/-- A finite map from texts to texts, with its items in some order. -/
abbrev TextItems := AList fun _ : String ↦ String

/-- The items as the store is given them. -/
def TextItems.props (m : TextItems) : Props := m.entries.map fun e ↦ (e.1, .text e.2)

namespace Props

/-- The map that entries with texts stand for. -/
def texts (ps : Props) : TextMap := (ps.map fun e ↦ ⟨e.1, e.2.text?.getD ""⟩).toFinmap

/-- Every value is a text, and no key occurs twice. -/
structure IsTextMap (ps : Props) : Prop where
  isText : ∀ e ∈ ps, e.2.IsText
  nodup : (ps.map Prod.fst).Nodup

/-! ## Items -/

theorem isTextMap_props (m : TextItems) : m.props.IsTextMap where
  isText e he := by
    obtain ⟨item, -, rfl⟩ := List.mem_map.mp he
    trivial
  nodup := by
    have hkeys : m.props.map Prod.fst = m.keys := by
      rw [TextItems.props, List.map_map]
      rfl
    rw [hkeys]
    exact m.keys_nodup

@[simp] theorem texts_props (m : TextItems) : m.props.texts = m.toFinmap := by
  have hitems : (m.props.map fun e ↦ (⟨e.1, e.2.text?.getD ""⟩ : Σ _ : String, String))
      = m.entries := by
    rw [TextItems.props, List.map_map]
    exact List.map_id _
  rw [texts, hitems]
  refine Finmap.ext_lookup fun k ↦ ?_
  rw [Finmap.dlookup_list_toFinmap]
  rfl

/-! ## Looking up -/

theorem lookup_texts (ps : Props) (k : String) :
    ps.texts.lookup k = (get? k ps).map fun d ↦ d.text?.getD "" := by
  rw [texts, Finmap.dlookup_list_toFinmap]
  induction ps with
  | nil => rfl
  | cons e ps ih =>
    obtain ⟨k', d⟩ := e
    rw [List.map_cons, get?]
    by_cases hk : k' = k
    · subst hk
      rw [List.dlookup_cons_eq, beq_self_eq_true, if_pos rfl, Option.map_some]
    · rw [List.dlookup_cons_ne _ _ (Ne.symm hk), beq_eq_false_iff_ne.mpr hk, ih]
      rfl

namespace IsTextMap

variable {ps qs : Props}

/-- An entry is an item of the map, and nothing else is. -/
theorem mem_iff (hps : ps.IsTextMap) {k t : String} :
    (k, .text t) ∈ ps ↔ ps.texts.lookup k = some t := by
  rw [mem_iff_get? hps.nodup, lookup_texts]
  constructor
  · intro h
    rw [h]
    rfl
  · intro h
    obtain ⟨d, hd, ht⟩ := Option.map_eq_some_iff.mp h
    have htext := hps.isText _ (mem_of_get? hd)
    cases d with
    | text s => exact hd.trans (congrArg some (congrArg Datum.text ht))
    | _ => exact htext.elim

theorem perm_of_texts_eq (hps : ps.IsTextMap) (hqs : qs.IsTextMap) (h : ps.texts = qs.texts) :
    ps.Perm qs := by
  have hsub : ∀ {ps qs : Props}, ps.IsTextMap → qs.IsTextMap → ps.texts = qs.texts →
      ∀ e ∈ ps, e ∈ qs := by
    rintro ps qs hps hqs h ⟨k, d⟩ he
    have htext := hps.isText _ he
    cases d with
    | text t =>
      rw [hps.mem_iff, h] at he
      exact hqs.mem_iff.mpr he
    | _ => exact htext.elim
  rw [List.perm_ext_iff_of_nodup hps.nodup.of_map hqs.nodup.of_map]
  exact fun e ↦ ⟨hsub hps hqs h e, hsub hqs hps h.symm e⟩

theorem texts_eq_of_perm (hps : ps.IsTextMap) (hqs : qs.IsTextMap) (h : ps.Perm qs) :
    ps.texts = qs.texts := by
  refine Finmap.ext_lookup fun k ↦ Option.ext fun t ↦ ?_
  rw [← hps.mem_iff, ← hqs.mem_iff, h.mem_iff]

end IsTextMap

/-! ## Sorting -/

/-- **Two lists of entries** stand for one map if they are the same once sorted, and only then. -/
theorem IsTextMap.texts_eq_iff {ps qs : Props} (hps : ps.IsTextMap) (hqs : qs.IsTextMap) :
    ps.texts = qs.texts ↔ sorted ps = sorted qs := by
  constructor
  · intro h
    exact sorted_eq_of_perm hps.nodup (hps.perm_of_texts_eq hqs h)
  · intro h
    have hperm : ps.Perm qs := (sorted_perm ps).symm.trans (h ▸ sorted_perm qs)
    exact hps.texts_eq_of_perm hqs hperm

/-! ## Matching -/

/-- The store's match of attributes is the inclusion of their maps. -/
theorem IsTextMap.includes_iff {ps qs : Props} (hps : ps.IsTextMap) (hqs : qs.IsTextMap) :
    Graph.includes ps qs ↔ ps.texts.Includes qs.texts := by
  have hitem : ∀ k t, ((get? k ps).getD .null).same (.text t) = true ↔ (k, .text t) ∈ ps := by
    intro k t
    rw [mem_iff_get? hps.nodup]
    cases hget : get? k ps with
    | none => simp [Datum.same, Datum.integer?]
    | some d =>
      have htext := hps.isText _ (mem_of_get? hget)
      cases d with
      | text s => rw [Option.getD_some, Datum.same_text_left, Option.some.injEq, eq_comm]
      | _ => exact htext.elim
  rw [Graph.includes, List.all_eq_true, TextMap.Includes]
  constructor
  · intro h k hk
    obtain ⟨t, ht⟩ := Option.isSome_iff_exists.mp (Finmap.lookup_isSome.mpr (Finmap.mem_keys.mp hk))
    have hmem := hqs.mem_iff.mpr ht
    rw [ht, ← hps.mem_iff]
    exact (hitem k t).mp (h _ hmem)
  · rintro h ⟨k, d⟩ hmem
    have htext := hqs.isText _ hmem
    cases d with
    | text t =>
      have hlookup := hqs.mem_iff.mp hmem
      have hk : k ∈ qs.texts.keys := by
        rw [Finmap.mem_keys, ← Finmap.lookup_isSome, hlookup]
        rfl
      rw [hitem, hps.mem_iff, h k hk, hlookup]
    | _ => exact htext.elim

end Props

end CodeAtlas
