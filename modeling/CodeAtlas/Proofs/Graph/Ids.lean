import CodeAtlas.Graph.Basic
import CodeAtlas.Proofs.Json.Unambiguous
import Mathlib.Data.Set.Finite.Basic
import Mathlib.Logic.Equiv.List
import Mathlib.Logic.Denumerable

/-!
# Ids tell elements apart

The id of an element is the digest of a text, and the text says what the element is. Two elements
with one id are therefore the same as far as the digest has no collision.

## Which collisions are excluded

A digest of a fixed length has collisions somewhere, so a statement about injective digests would
say nothing about the one that is used. What a run needs is less: that no two of the texts it hashes
have the same digest, which is `Collisionless`. Proofs are nevertheless about injective digests,
where every id can be taken apart without side conditions. The two meet in `exists_injective_eqOn`:
on the texts of a run, a digest without collisions there agrees with an injective one, and a run
cannot see the difference.
-/

namespace CodeAtlas

/-- No two different texts of the list have the same digest. -/
def Collisionless (digest : Digest) (texts : List String) : Prop :=
  ∀ a ∈ texts, ∀ b ∈ texts, digest a = digest b → a = b

theorem collisionless_iff_nodup {digest : Digest} {texts : List String} :
    Collisionless digest texts ↔ (texts.dedup.map digest).Nodup := by
  constructor
  · intro h
    refine List.Nodup.map_on (fun a ha b hb hab ↦ ?_) (List.nodup_dedup texts)
    exact h a (List.mem_dedup.mp ha) b (List.mem_dedup.mp hb) hab
  · intro h a ha b hb hab
    exact List.inj_on_of_nodup_map h (List.mem_dedup.mpr ha) (List.mem_dedup.mpr hb) hab

/-- Texts are cheaper to compare than their digests, so that each is digested only once. -/
instance (digest : Digest) (texts : List String) : Decidable (Collisionless digest texts) :=
  decidable_of_iff' _ collisionless_iff_nodup

theorem Collisionless.mono {digest : Digest} {texts texts' : List String}
    (h : Collisionless digest texts) (hsub : ∀ t ∈ texts', t ∈ texts) :
    Collisionless digest texts' :=
  fun a ha b hb hab ↦ h a (hsub a ha) b (hsub b hb) hab

private theorem infinite_string : Infinite String :=
  Infinite.of_injective (fun n : ℕ ↦ String.ofList (List.replicate n 'a')) fun m n h ↦ by
    have hlen := congrArg List.length (String.ofList_injective h)
    rwa [List.length_replicate, List.length_replicate] at hlen

private theorem countable_string : Countable String := by
  have hchar : Function.Injective Char.toNat := fun c d h ↦ Char.ext (UInt32.toNat_inj.mp h)
  have htext : Function.Injective fun s : String ↦ s.toList.map Char.toNat :=
    fun _ _ h ↦ String.toList_injective (List.map_injective_iff.mpr hchar h)
  exact htext.countable

/-- On finitely many texts, a digest without collisions cannot be told from an injective one. -/
theorem exists_injective_eqOn {digest : Digest} {texts : List String}
    (h : Collisionless digest texts) :
    ∃ digest' : Digest, Function.Injective digest' ∧ ∀ t ∈ texts, digest t = digest' t := by
  have := infinite_string
  have := countable_string
  -- Both complements are countably infinite, so the other texts have room among the other digests.
  have htexts : {t | t ∈ texts}.Finite := texts.finite_toSet
  have hother := (htexts.infinite_compl).to_subtype
  have hroom := ((htexts.image digest).infinite_compl).to_subtype
  obtain ⟨e⟩ := nonempty_equiv_of_countable (α := ↥({t | t ∈ texts}ᶜ))
    (β := ↥((digest '' {t | t ∈ texts})ᶜ))
  obtain ⟨digest', hin, hout⟩ : ∃ digest' : Digest, (∀ t ∈ texts, digest' t = digest t) ∧
      ∀ t, ∀ ht : t ∉ texts, digest' t = (e ⟨t, ht⟩).1 :=
    ⟨fun t ↦ if ht : t ∈ texts then digest t else (e ⟨t, ht⟩).1,
      fun t ht ↦ dif_pos ht, fun t ht ↦ dif_neg ht⟩
  refine ⟨digest', fun a b hab ↦ ?_, fun t ht ↦ (hin t ht).symm⟩
  by_cases ha : a ∈ texts
  · by_cases hb : b ∈ texts
    · rw [hin a ha, hin b hb] at hab
      exact h a ha b hb hab
    · rw [hin a ha, hout b hb] at hab
      exact absurd ⟨a, ha, hab⟩ (e ⟨b, hb⟩).2
  · by_cases hb : b ∈ texts
    · rw [hout a ha, hin b hb] at hab
      exact absurd ⟨b, hb, hab.symm⟩ (e ⟨a, ha⟩).2
    · rw [hout a ha, hout b hb] at hab
      exact congrArg Subtype.val (e.injective (Subtype.ext hab))

namespace Graph

open Json (writeText writeAt writeText_append_inj writeAt_map_append_inj)

/-! ## The text of an element -/

/-- The text whose digest is the id of a node. -/
def nodeText (label : String) (key : Props) : String := idText [.text label, .map key]

/-- The text whose digest is the id of a relationship. -/
def relationshipText (type sourceId targetId : String) (attrs : Props) : String :=
  idText [.text type, .text sourceId, .text targetId, .map attrs]

private theorem toList_nodeText (label : String) (key : Props) :
    (nodeText label key).toList
      = '[' :: (writeText false label ++ ',' :: ' ' :: (writeAt .canonical 1 (.map key) ++ [']'])) := by
  rw [nodeText, idText, Json.write, String.toList_ofList]
  simp only [writeAt, Json.writeItems, Json.enclose, Json.joinItems, Json.lineBreak,
    Json.Style.canonical, List.isEmpty_cons, Bool.false_eq_true, if_false, List.nil_append,
    List.append_assoc]
  rfl

private theorem toList_relationshipText (type source target : String) (attrs : Props) :
    (relationshipText type source target attrs).toList
      = '[' :: (writeText false type ++ ',' :: ' ' :: (writeText false source ++ ',' :: ' ' ::
        (writeText false target ++ ',' :: ' ' :: (writeAt .canonical 1 (.map attrs) ++ [']'])))) := by
  rw [relationshipText, idText, Json.write, String.toList_ofList]
  simp only [writeAt, Json.writeItems, Json.enclose, Json.joinItems, Json.lineBreak,
    Json.Style.canonical, List.isEmpty_cons, Bool.false_eq_true, if_false, List.nil_append,
    List.append_assoc]
  rfl

/-- Behind the first text there is a map in the one and a text in the other. -/
theorem nodeText_ne_relationshipText (label : String) (key : Props) (type source target : String)
    (attrs : Props) : nodeText label key ≠ relationshipText type source target attrs := by
  intro h
  have htext : (nodeText label key).toList
      = (relationshipText type source target attrs).toList := congrArg String.toList h
  rw [toList_nodeText, toList_relationshipText] at htext
  obtain ⟨-, hrest⟩ := writeText_append_inj (List.cons.inj htext).2
  obtain ⟨cs, hmap⟩ : ∃ cs, writeAt .canonical 1 (.map key) = '\x7b' :: cs :=
    Json.writeAt_map_eq_cons 1 key
  have hbehind := (List.cons.inj (List.cons.inj hrest).2).2
  rw [hmap] at hbehind
  exact absurd (List.cons.inj hbehind).1 (by decide)

/-- The order of the properties does not matter. -/
theorem nodeId_congr {digest : Digest} {label : String} {key key' : Props}
    (h : Props.sorted key = Props.sorted key') :
    nodeId digest label key = nodeId digest label key' := by
  have htext : nodeText label key = nodeText label key' := by
    refine String.toList_injective ?_
    rw [toList_nodeText, toList_nodeText, Json.writeAt_map_congr h]
  exact congrArg digest htext

theorem relationshipId_congr {digest : Digest} {type source target : String} {attrs attrs' : Props}
    (h : Props.sorted attrs = Props.sorted attrs') :
    relationshipId digest type source target attrs
      = relationshipId digest type source target attrs' := by
  have htext : relationshipText type source target attrs
      = relationshipText type source target attrs' := by
    refine String.toList_injective ?_
    rw [toList_relationshipText, toList_relationshipText, Json.writeAt_map_congr h]
  exact congrArg digest htext

variable {digest : Digest} (hd : Function.Injective digest)

include hd

theorem nodeId_inj {label label' : String} {key key' : Props} (hkey : ∀ e ∈ key, e.2.IsScalar)
    (hkey' : ∀ e ∈ key', e.2.IsScalar) (h : nodeId digest label key = nodeId digest label' key') :
    label = label' ∧ Props.sorted key = Props.sorted key' := by
  have htext : (nodeText label key).toList = (nodeText label' key').toList :=
    congrArg String.toList (hd h)
  rw [toList_nodeText, toList_nodeText] at htext
  obtain ⟨hlabel, hrest⟩ := writeText_append_inj (List.cons.inj htext).2
  have hmap := (List.cons.inj (List.cons.inj hrest).2).2
  exact ⟨hlabel, (writeAt_map_append_inj hkey hkey' hmap).1⟩

theorem relationshipId_inj {type type' source source' target target' : String}
    {attrs attrs' : Props}
    (h : relationshipId digest type source target attrs
      = relationshipId digest type' source' target' attrs') :
    type = type' ∧ source = source' ∧ target = target' ∧
      ((∀ e ∈ attrs, e.2.IsScalar) → (∀ e ∈ attrs', e.2.IsScalar) →
        Props.sorted attrs = Props.sorted attrs') := by
  have htext : (relationshipText type source target attrs).toList
      = (relationshipText type' source' target' attrs').toList := congrArg String.toList (hd h)
  rw [toList_relationshipText, toList_relationshipText] at htext
  obtain ⟨htype, hrest⟩ := writeText_append_inj (List.cons.inj htext).2
  obtain ⟨hsource, hrest⟩ := writeText_append_inj (List.cons.inj (List.cons.inj hrest).2).2
  obtain ⟨htarget, hrest⟩ := writeText_append_inj (List.cons.inj (List.cons.inj hrest).2).2
  have hmap := (List.cons.inj (List.cons.inj hrest).2).2
  exact ⟨htype, hsource, htarget, fun hs hs' ↦ (writeAt_map_append_inj hs hs' hmap).1⟩

/-! ## Files and functions -/

omit hd in
theorem isScalar_fileKey {d : Datum} (h : d.IsScalar) : ∀ e ∈ fileKey d, e.2.IsScalar := by
  simpa [fileKey] using h

omit hd in
theorem isScalar_functionKey {d e : Datum} (hd' : d.IsScalar) (he : e.IsScalar) :
    ∀ x ∈ functionKey d e, x.2.IsScalar := by
  simpa [functionKey] using ⟨hd', he⟩

omit hd in
@[simp] theorem sorted_fileKey (d : Datum) : Props.sorted (fileKey d) = fileKey d := rfl

omit hd in
@[simp] theorem sorted_functionKey (d e : Datum) :
    Props.sorted (functionKey d e) = functionKey d e := by
  have h : ¬ ("path" : String) < "name" := by decide
  simp [functionKey, Props.insertSorted, h]

/-- The id of the node of a file. -/
def fileId (digest : Digest) (path : String) : String :=
  nodeId digest fileLabel (fileKey (.text path))

/-- The id of the node of a function. -/
def functionId (digest : Digest) (name path : String) : String :=
  nodeId digest functionLabel (functionKey (.text name) (.text path))

theorem fileId_inj {p q : String} : fileId digest p = fileId digest q ↔ p = q := by
  refine ⟨fun h ↦ ?_, fun h ↦ h ▸ rfl⟩
  have hkey := (nodeId_inj hd (isScalar_fileKey (Datum.isScalar_text p))
    (isScalar_fileKey (Datum.isScalar_text q)) h).2
  rw [sorted_fileKey, sorted_fileKey, fileKey, fileKey] at hkey
  simpa using hkey

theorem functionId_inj {f g p q : String} :
    functionId digest f p = functionId digest g q ↔ f = g ∧ p = q := by
  refine ⟨fun h ↦ ?_, fun h ↦ by rw [h.1, h.2]⟩
  have hkey := (nodeId_inj hd
    (isScalar_functionKey (Datum.isScalar_text f) (Datum.isScalar_text p))
    (isScalar_functionKey (Datum.isScalar_text g) (Datum.isScalar_text q)) h).2
  rw [sorted_functionKey, sorted_functionKey, functionKey, functionKey] at hkey
  simpa using hkey

theorem fileId_ne_functionId {p f q : String} : fileId digest p ≠ functionId digest f q := by
  intro h
  have hlabel := (nodeId_inj hd (isScalar_fileKey (Datum.isScalar_text p))
    (isScalar_functionKey (Datum.isScalar_text f) (Datum.isScalar_text q)) h).1
  exact absurd hlabel (by decide)

end Graph

end CodeAtlas
