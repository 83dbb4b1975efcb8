import CodeAtlas.Indexing.Writer
import CodeAtlas.Proofs.Graph.Consistent

/-!
# Graphs of texts

The keys and attributes that indexing writes are texts. In a graph of texts the properties of a node
are known from its id, nothing that is asked for can be refused, since keys and attributes have a
written form and relationships have their ends, and what is found can be compared with what is
wanted.

`Node.isFile` and `Node.isFunction` say what a node stands for as someone sees it who does not know
the digest. In a graph of texts that is again what its id says.
-/

namespace CodeAtlas

/-! ## Equality with a text -/

theorem Datum.same_text_left {s : String} {d : Datum} :
    (Datum.text s).same d = true ↔ d = .text s := by
  cases d with
  | text t => rw [Datum.same, beq_iff_eq, Datum.text.injEq, eq_comm]
  | _ => simp [Datum.same, Datum.integer?]

theorem Datum.text?_eq_some {d : Datum} {s : String} : d.text? = some s ↔ d = .text s := by
  cases d with
  | text t => rw [Datum.text?, Option.some.injEq, Datum.text.injEq]
  | _ => simp [Datum.text?]

/-! ## Nodes as they are seen -/

namespace Node

/-- Does the node stand for the file at a path? -/
def isFile (n : Node) (path : String) : Bool :=
  n.labels == [Graph.fileLabel] && n.properties.length == 1
    && (n.property "path").text? == some path

/-- Does the node stand for the function of a name in the file at a path? -/
def isFunction (n : Node) (name path : String) : Bool :=
  n.labels == [Graph.functionLabel] && n.properties.length == 2
    && (n.property "name").text? == some name && (n.property "path").text? == some path

theorem mem_of_property {n : Node} {key t : String} (h : (n.property key).text? == some t) :
    (key, .text t) ∈ n.properties := by
  rw [beq_iff_eq, property, Datum.text?_eq_some] at h
  cases hget : Props.get? key n.properties with
  | none => exact absurd h (by simp [hget])
  | some d =>
    rw [hget, Option.getD_some] at h
    exact Props.mem_of_get? (h ▸ hget)

theorem isFile_iff {n : Node} {path : String} :
    n.isFile path ↔ n.labels = [Graph.fileLabel] ∧ n.properties = Graph.fileKey (.text path) := by
  rw [isFile, Bool.and_eq_true, Bool.and_eq_true, beq_iff_eq, beq_iff_eq, and_assoc]
  refine and_congr_right fun _ ↦ ⟨?_, fun h ↦ ?_⟩
  · rintro ⟨hlength, hpath⟩
    obtain ⟨e, he⟩ := List.length_eq_one_iff.mp hlength
    have hmem := mem_of_property hpath
    rw [he, List.mem_singleton] at hmem
    rw [he, ← hmem]
    rfl
  · rw [property, h]
    simp [Graph.fileKey, Datum.text?, Props.get?]

theorem isFunction_iff {n : Node} {name path : String} :
    n.isFunction name path ↔ n.labels = [Graph.functionLabel] ∧
      n.properties.Perm (Graph.functionKey (.text name) (.text path)) := by
  rw [isFunction, Bool.and_eq_true, Bool.and_eq_true, Bool.and_eq_true, beq_iff_eq, beq_iff_eq,
    and_assoc, and_assoc]
  refine and_congr_right fun _ ↦ ⟨?_, fun h ↦ ?_⟩
  · rintro ⟨hlength, hname, hpath⟩
    have hsub : Graph.functionKey (.text name) (.text path) ⊆ n.properties := by
      rw [Graph.functionKey, List.cons_subset, List.cons_subset]
      exact ⟨mem_of_property hname, mem_of_property hpath, List.nil_subset _⟩
    have hnodup : (Graph.functionKey (.text name) (.text path)).Nodup := by
      simp [Graph.functionKey]
    exact ((List.subperm_of_subset hnodup hsub).perm_of_length_le hlength.le).symm
  · rcases List.perm_pair.mp h with h | h
    · rw [property, property, h]
      simp [Datum.text?, Props.get?]
    · rw [property, property, h]
      simp [Datum.text?, Props.get?]

end Node

namespace Graph

/-- The values in the graph are texts. -/
abbrev Textual (digest : Digest) (g : Graph) : Prop := g.Consistent digest Datum.IsText

variable {digest : Digest} {g : Graph}

theorem isText_fileKey (path : String) : ∀ e ∈ fileKey (.text path), e.2.IsText := by
  simp [fileKey, Datum.IsText]

theorem isText_functionKey (name path : String) :
    ∀ e ∈ functionKey (.text name) (.text path), e.2.IsText := by
  simp [functionKey, Datum.IsText]

theorem without_without (g : Graph) (p q : Relationship → Bool) :
    (g.without p).without q = g.without fun r ↦ p r || q r := by
  simp only [without, List.filter_filter, Graph.mk.injEq, true_and]
  congr 1
  funext r
  rw [Bool.not_or, Bool.and_comm]

theorem without_eq_self {p : Relationship → Bool} (h : ∀ r ∈ g.relationships, p r = false) :
    g.without p = g := by
  have hfilter : (g.relationships.filter fun r ↦ !p r) = g.relationships :=
    List.filter_eq_self.mpr fun r hr ↦ by rw [h r hr, Bool.not_false]
  rw [without, hfilter]

namespace Textual

/-- A value that is found under a key is a text. -/
theorem isText_propertyOf {ps : Props} (hps : ∀ e ∈ ps, e.2.IsText) (key : String) :
    Indexing.propertyOf key ps = .null ∨ (Indexing.propertyOf key ps).IsText := by
  rw [Indexing.propertyOf]
  cases h : Props.get? key ps with
  | none => exact Or.inl rfl
  | some d => exact Or.inr (hps _ (Props.mem_of_get? h))

theorem isScalar_propertyOf {ps : Props} (hps : ∀ e ∈ ps, e.2.IsText) (key : String) :
    (Indexing.propertyOf key ps).IsScalar := by
  rcases isText_propertyOf hps key with h | h
  · rw [h]
    trivial
  · exact h.isScalar

theorem isText_propertiesAt (hg : g.Textual digest) (id : String) :
    ∀ e ∈ g.propertiesAt id, e.2.IsText := by
  rw [propertiesAt]
  cases h : g.node? id with
  | none => exact fun e he ↦ absurd he List.not_mem_nil
  | some n => exact hg.node_admits n (mem_of_node? h).1

theorem isScalar_target (hg : g.Textual digest) {type sourceId : String} {attrs : Props} {e : Edge}
    (he : e ∈ g.edgesFrom type sourceId attrs) (key : String) :
    (Indexing.propertyOf key e.target).IsScalar := by
  obtain ⟨r, -, rfl⟩ := mem_edgesFrom.mp he
  exact isScalar_propertyOf (isText_propertiesAt hg _) key

theorem isScalar_property (hg : g.Textual digest) {type sourceId : String} {attrs : Props}
    {e : Edge} (he : e ∈ g.edgesFrom type sourceId attrs) (key : String) :
    (Indexing.propertyOf key e.properties).IsScalar := by
  obtain ⟨r, hr, rfl⟩ := mem_edgesFrom.mp he
  exact isScalar_propertyOf (hg.relationship_admits r (mem_outgoing.mp hr).1) key

end Textual

/-- The node of a file has the path of the file and nothing else. -/
theorem Textual.propertiesAt_file (hd : Function.Injective digest) (hg : g.Textual digest)
    {path : String} (hn : ∃ n, g.node? (fileId digest path) = some n) :
    g.propertiesAt (fileId digest path) = fileKey (.text path) := by
  obtain ⟨n, hn⟩ := hn
  have hperm := (hg.node_of_id hd (fun _ ↦ Datum.IsText.isScalar)
    (isScalar_fileKey (Datum.isScalar_text path)) hn).2
  rw [propertiesAt_of_node? hn]
  exact List.perm_singleton.mp hperm

/-- The node of a function has the name and the path of the function. -/
theorem Textual.propertiesAt_function (hd : Function.Injective digest) (hg : g.Textual digest)
    {name path : String} (hn : ∃ n, g.node? (functionId digest name path) = some n) :
    Indexing.propertyOf "name" (g.propertiesAt (functionId digest name path)) = .text name ∧
      Indexing.propertyOf "path" (g.propertiesAt (functionId digest name path)) = .text path := by
  obtain ⟨n, hn⟩ := hn
  have hperm := (hg.node_of_id hd (fun _ ↦ Datum.IsText.isScalar)
    (isScalar_functionKey (Datum.isScalar_text name) (Datum.isScalar_text path)) hn).2
  rw [propertiesAt_of_node? hn]
  rcases List.perm_pair.mp hperm with h | h
  · rw [h]
    exact ⟨rfl, rfl⟩
  · rw [h]
    exact ⟨rfl, rfl⟩

/-! ## Files and functions as they are seen -/

/-- Is the relationship an import of a clause from one file into another? -/
def isImport (g : Graph) (path clause source : String) (r : Relationship) : Bool :=
  r.type == importsFrom && (g.node? r.sourceId).any (·.isFile path)
    && (g.node? r.targetId).any (·.isFile source)
    && (Indexing.propertyOf "clause" r.properties).text? == some clause

/-- Is the relationship a call of one function by another? -/
def isCall (g : Graph) (name path callee target : String) (r : Relationship) : Bool :=
  r.type == calls && (g.node? r.sourceId).any (·.isFunction name path)
    && (g.node? r.targetId).any (·.isFunction callee target)

theorem Textual.isFile_iff (hd : Function.Injective digest) (hg : g.Textual digest) {n : Node}
    {id path : String} (hn : g.node? id = some n) : n.isFile path ↔ id = fileId digest path := by
  rw [Node.isFile_iff]
  constructor
  · rintro ⟨hlabels, hproperties⟩
    obtain ⟨hmem, rfl⟩ := mem_of_node? hn
    obtain ⟨label, heq⟩ := hg.node_eq n hmem
    have hlabel : [label] = [fileLabel] := hlabels ▸ congrArg Node.labels heq.symm
    rw [heq, hproperties, List.singleton_inj.mp hlabel]
    rfl
  · rintro rfl
    obtain ⟨hlabels, hperm⟩ := hg.node_of_id hd (fun _ ↦ Datum.IsText.isScalar)
      (isScalar_fileKey (Datum.isScalar_text path)) hn
    exact ⟨hlabels, List.perm_singleton.mp hperm⟩

theorem Textual.isFunction_iff (hd : Function.Injective digest) (hg : g.Textual digest) {n : Node}
    {id name path : String} (hn : g.node? id = some n) :
    n.isFunction name path ↔ id = functionId digest name path := by
  rw [Node.isFunction_iff]
  constructor
  · rintro ⟨hlabels, hperm⟩
    obtain ⟨hmem, rfl⟩ := mem_of_node? hn
    obtain ⟨label, heq⟩ := hg.node_eq n hmem
    have hlabel : [label] = [functionLabel] := hlabels ▸ congrArg Node.labels heq.symm
    have hsorted : Props.sorted n.properties = functionKey (.text name) (.text path) := by
      rcases List.perm_pair.mp hperm with h | h
      · rw [h]
        exact sorted_functionKey _ _
      · rw [h]
        have hlt : ("name" : String) < "path" := by decide
        simp [functionKey, Props.insertSorted, hlt]
    rw [heq, List.singleton_inj.mp hlabel]
    exact nodeId_congr (hsorted.trans (sorted_functionKey _ _).symm)
  · rintro rfl
    exact hg.node_of_id hd (fun _ ↦ Datum.IsText.isScalar)
      (isScalar_functionKey (Datum.isScalar_text name) (Datum.isScalar_text path)) hn

theorem Textual.isCall_iff (hd : Function.Injective digest) (hg : g.Textual digest)
    {r : Relationship} (hr : r ∈ g.relationships) {name path callee target : String} :
    g.isCall name path callee target r ↔ r.type = calls ∧
      r.sourceId = functionId digest name path ∧ r.targetId = functionId digest callee target := by
  obtain ⟨n, hn⟩ := hg.source_mem r hr
  obtain ⟨m, hm⟩ := hg.target_mem r hr
  rw [isCall, Bool.and_eq_true, Bool.and_eq_true, beq_iff_eq, and_assoc, hn, hm, Option.any_some,
    Option.any_some, hg.isFunction_iff hd hn, hg.isFunction_iff hd hm]

theorem Textual.isImport_iff (hd : Function.Injective digest) (hg : g.Textual digest)
    {r : Relationship} (hr : r ∈ g.relationships) {path clause source : String} :
    g.isImport path clause source r ↔ r.type = importsFrom ∧ r.sourceId = fileId digest path ∧
      r.targetId = fileId digest source ∧
      Indexing.propertyOf "clause" r.properties = .text clause := by
  obtain ⟨n, hn⟩ := hg.source_mem r hr
  obtain ⟨m, hm⟩ := hg.target_mem r hr
  rw [isImport, Bool.and_eq_true, Bool.and_eq_true, Bool.and_eq_true, beq_iff_eq, beq_iff_eq,
    and_assoc, and_assoc, hn, hm, Option.any_some, Option.any_some, hg.isFile_iff hd hn,
    hg.isFile_iff hd hm, Datum.text?_eq_some]

/-! ## Requests with written forms -/

theorem answer?_mergeRelationship (digest : Digest) (g : Graph) (type fromLabel toLabel : String)
    (attrs : Option Props) {fromKey toKey : Props} (hfrom : ∀ e ∈ fromKey, e.2.IsScalar)
    (hto : ∀ e ∈ toKey, e.2.IsScalar) (hattrs : ∀ e ∈ attrs.getD [], e.2.IsScalar) :
    g.answer? digest (.mergeRelationship type fromLabel fromKey toLabel toKey attrs)
      = some (.ok (keyRelationship digest type fromLabel fromKey toLabel toKey (attrs.getD [])).id,
        g.mergeRelationship digest type fromLabel fromKey toLabel toKey (attrs.getD [])) := by
  rw [answer?, if_pos (isWritable_map_of_scalar hfrom), if_pos (isWritable_map_of_scalar hto),
    if_pos (isWritable_map_of_scalar hattrs)]

theorem answer?_deleteRelationship (digest : Digest) (g : Graph) (type fromLabel toLabel : String)
    (attrs : Option Props) {fromKey toKey : Props} (hfrom : ∀ e ∈ fromKey, e.2.IsScalar)
    (hto : ∀ e ∈ toKey, e.2.IsScalar) :
    ∃ n, g.answer? digest (.deleteRelationship type fromLabel fromKey toLabel toKey attrs)
      = some (.ok n, g.without (isBetween type (nodeId digest fromLabel fromKey)
        (nodeId digest toLabel toKey) (attrs.getD []))) := by
  rw [answer?, isWritable_map_of_scalar hfrom, isWritable_map_of_scalar hto]
  exact ⟨_, rfl⟩

theorem answer?_findRelationships {admits : Datum → Prop} (hg : g.Consistent digest admits)
    (type fromLabel : String) (attrs : Option Props) {fromKey : Props}
    (hfrom : ∀ e ∈ fromKey, e.2.IsScalar) :
    g.answer? digest (.findRelationships type fromLabel fromKey attrs)
      = some (.ok (g.edgesFrom type (nodeId digest fromLabel fromKey) (attrs.getD [])), g) := by
  rw [answer?, if_pos (isWritable_map_of_scalar hfrom), hg.findRelationships_eq]
  rfl

end Graph

end CodeAtlas
