import ElementModules.Keyed

/-!
# Trees of files

A tree of files is a finite map from addresses to nodes. An address lists the names that lead from
the root to a node; the root itself is always a directory and is not listed. Everything that has an
address lies in a directory.

Main statements: one equation for each operation through `Tree.get?`: `get?_setFile`, `get?_addDir`,
`get?_remove` and `get?_removeAll`. An operation that would break the tree leaves it as it is.
-/

namespace ElementModules

/-- The names that lead from the root of a tree to a node. -/
abbrev Address := List Text

/-- What is in a file. -/
inductive Content
  | text (t : Text)
  /-- The bytes of a file that holds no text. -/
  | bytes (bs : List UInt8)
  deriving DecidableEq, Repr

/-- The text with the given bytes. -/
def decodeUtf8? (bs : List UInt8) : Option Text :=
  (String.fromUTF8? ⟨bs.toArray⟩).map String.toList

/-- The content with the given bytes. -/
def Content.ofBytes (bs : List UInt8) : Content :=
  match decodeUtf8? bs with
  | some t => .text t
  | none => .bytes bs

/-- What stands at an address. -/
inductive Node
  | dir
  | file (content : Content)
  deriving DecidableEq, Repr

/-- What stands at an address; the root is a directory. -/
def nodeAt? (nodes : List (Address × Node)) (a : Address) : Option Node :=
  if a = [] then some .dir else nodes.lookup a

/-- A tree of files and directories. -/
structure Tree where
  /-- All nodes but the root. -/
  nodes : List (Address × Node)
  /-- An address has one node. -/
  distinct : Keyed.Distinct nodes
  /-- Every node lies in a directory. -/
  closed : ∀ a ∈ nodes.map Prod.fst, a ≠ [] ∧ nodeAt? nodes a.dropLast = some .dir

namespace Tree

/-- The tree without files. -/
def empty : Tree := ⟨[], List.nodup_nil, by simp⟩

instance : Inhabited Tree := ⟨empty⟩

/-- What stands at an address. -/
def get? (t : Tree) (a : Address) : Option Node :=
  nodeAt? t.nodes a

@[simp] theorem get?_nil (t : Tree) : t.get? [] = some .dir := rfl

theorem get?_of_ne_nil (t : Tree) {a : Address} (h : a ≠ []) : t.get? a = t.nodes.lookup a := by
  simp [get?, nodeAt?, h]

theorem lookup_isSome_iff {nodes : List (Address × Node)} {a : Address} :
    (nodes.lookup a).isSome ↔ a ∈ nodes.map Prod.fst := by
  induction nodes with
  | nil => simp
  | cons e nodes ih =>
    obtain ⟨k, v⟩ := e
    by_cases h : a = k
    · simp [h]
    · have hb : (a == k) = false := beq_eq_false_iff_ne.2 h
      simp only [List.lookup_cons, hb, List.map_cons, List.mem_cons, h, false_or]
      exact ih

/-- An address with a node is listed, unless it is the root. -/
theorem mem_nodes_of_get? (t : Tree) {a : Address} {n : Node} (h : t.get? a = some n)
    (ha : a ≠ []) : a ∈ t.nodes.map Prod.fst := by
  rw [get?_of_ne_nil t ha] at h
  exact lookup_isSome_iff.1 (by simp [h])

/-- Every node lies in a directory. -/
theorem get?_dropLast (t : Tree) {a : Address} {n : Node} (h : t.get? a = some n) (ha : a ≠ []) :
    t.get? a.dropLast = some .dir :=
  (t.closed a (t.mem_nodes_of_get? h ha)).2

/-- Whether a node may be put at an address: it is not the root and lies in a directory. -/
def hasPlace (t : Tree) (a : Address) : Bool :=
  a ≠ [] && t.get? a.dropLast = some .dir

/-- Whether anything lies directly in the directory at an address. -/
def hasChildren (t : Tree) (a : Address) : Bool :=
  t.nodes.any fun e => e.1.dropLast = a

/-- The tree with a node at an address, if it has a place there and no directory is lost. -/
def put (t : Tree) (a : Address) (n : Node) : Tree :=
  if h : t.hasPlace a ∧ (n = .dir ∨ t.get? a ≠ some .dir) then
    { nodes := Keyed.put a n t.nodes
      distinct := Keyed.distinct_put t.distinct
      closed := by
        obtain ⟨hplace, hkeep⟩ := h
        simp only [hasPlace, Bool.and_eq_true, decide_eq_true_eq] at hplace
        obtain ⟨hne, hdir⟩ := hplace
        have hlook : ∀ b, b = [] ∨ b ≠ a ∨ n = .dir → nodeAt? t.nodes b = some .dir →
            nodeAt? (Keyed.put a n t.nodes) b = some .dir := by
          intro b hb hd
          unfold nodeAt? at *
          by_cases hnil : b = []
          · simp [hnil]
          · rw [if_neg hnil] at hd ⊢
            rw [Keyed.lookup_put]
            by_cases hba : b = a
            · rcases hb with hb | hb | hb
              · exact absurd hb hnil
              · exact absurd hba hb
              · simp [hba, hb]
            · simp [hba, hd]
        have hkept : ∀ b, nodeAt? t.nodes b = some .dir →
            nodeAt? (Keyed.put a n t.nodes) b = some .dir := by
          intro b hd
          refine hlook b ?_ hd
          by_cases hba : b = a
          · rcases hkeep with hk | hk
            · exact .inr (.inr hk)
            · exact absurd (hba ▸ hd) hk
          · exact .inr (.inl hba)
        intro b hb
        rw [Keyed.keys_put] at hb
        have hmem : b ∈ t.nodes.map Prod.fst ∨ b = a := by
          split at hb
          · exact .inl hb
          · simpa using hb
        rcases hmem with hm | rfl
        · exact ⟨(t.closed b hm).1, hkept _ (t.closed b hm).2⟩
        · exact ⟨hne, hkept _ hdir⟩ }
  else t

/-- The tree with a file at an address. -/
def setFile (t : Tree) (a : Address) (c : Content) : Tree :=
  t.put a (.file c)

/-- The tree with a directory at an address. -/
def addDir (t : Tree) (a : Address) : Tree :=
  t.put a .dir

/-- The tree without the nodes whose addresses have a property. All that lies in such a node must
have it, too. -/
def dropWhere (t : Tree) (p : Address → Bool)
    (h : ∀ a ∈ t.nodes.map Prod.fst, p a.dropLast → p a) : Tree where
  nodes := t.nodes.filter fun e => !p e.1
  distinct := (List.filter_sublist.map Prod.fst).nodup t.distinct
  closed := by
    intro a ha
    simp only [List.mem_map, List.mem_filter, Bool.not_eq_eq_eq_not, Bool.not_true] at ha
    obtain ⟨e, ⟨he, hp⟩, rfl⟩ := ha
    have hmem : e.1 ∈ t.nodes.map Prod.fst := List.mem_map_of_mem he
    refine ⟨(t.closed _ hmem).1, ?_⟩
    have hd := (t.closed _ hmem).2
    have hq : p e.1.dropLast = false := by
      cases hc : p e.1.dropLast with
      | false => rfl
      | true => simp [h _ hmem hc] at hp
    unfold nodeAt? at *
    split
    · rfl
    next hne =>
      rw [if_neg hne] at hd
      rw [Keyed.lookup_filter (fun b => !p b), hq]
      exact hd

/-- The tree without the node at an address, unless something lies in it. -/
def remove (t : Tree) (a : Address) : Tree :=
  if h : t.hasChildren a = false then
    t.dropWhere (fun b => b = a) (by
      intro b hb hba
      obtain ⟨e, he, rfl⟩ := List.mem_map.1 hb
      have := List.any_eq_false.1 h e he
      exact absurd hba this)
  else t

/-- The tree without the node at an address and all that lies below it. -/
def removeAll (t : Tree) (a : Address) : Tree :=
  t.dropWhere (fun b => a <+: b && a ≠ []) (by
    intro b _ hb
    simp only [Bool.and_eq_true, decide_eq_true_eq] at hb ⊢
    exact ⟨hb.1.trans (List.dropLast_prefix b), hb.2⟩)

/-- What stands at an address after a node was put somewhere. -/
theorem get?_put {t : Tree} {a : Address} {n : Node} (hplace : t.hasPlace a)
    (hkeep : n = .dir ∨ t.get? a ≠ some .dir) (b : Address) :
    (t.put a n).get? b = if b = a then some n else t.get? b := by
  have hne : a ≠ [] := by
    simp only [hasPlace, Bool.and_eq_true, decide_eq_true_eq] at hplace
    exact hplace.1
  unfold put
  rw [dif_pos ⟨hplace, hkeep⟩]
  simp only [get?, nodeAt?]
  by_cases hb : b = []
  · subst hb
    simp [Ne.symm hne]
  · simp only [hb, if_false, Keyed.lookup_put, beq_iff_eq]

/-- What stands at an address after some nodes were dropped. -/
theorem get?_dropWhere (t : Tree) (p : Address → Bool)
    (h : ∀ a ∈ t.nodes.map Prod.fst, p a.dropLast → p a) (b : Address) :
    (t.dropWhere p h).get? b = if p b ∧ b ≠ [] then none else t.get? b := by
  simp only [dropWhere, get?, nodeAt?]
  by_cases hb : b = []
  · simp [hb]
  · simp only [hb, if_false, Keyed.lookup_filter (fun b => !p b)]
    cases p b <;> simp [hb]

/-- A file has a place in a directory where none stands. -/
theorem get?_setFile {t : Tree} {a : Address} {c : Content} (hplace : t.hasPlace a)
    (hkeep : t.get? a ≠ some .dir) (b : Address) :
    (t.setFile a c).get? b = if b = a then some (.file c) else t.get? b :=
  get?_put hplace (.inr hkeep) b

/-- A directory has a place in a directory. -/
theorem get?_addDir {t : Tree} {a : Address} (hplace : t.hasPlace a) (b : Address) :
    (t.addDir a).get? b = if b = a then some .dir else t.get? b :=
  get?_put hplace (.inl rfl) b

/-- A node in which nothing lies can be removed. -/
theorem get?_remove {t : Tree} {a : Address} (h : t.hasChildren a = false) (ha : a ≠ [])
    (b : Address) : (t.remove a).get? b = if b = a then none else t.get? b := by
  rw [remove, dif_pos h, get?_dropWhere]
  by_cases hb : b = a
  · simp [hb, ha]
  · simp [hb]

/-- A node can be removed together with all that lies below it. -/
theorem get?_removeAll (t : Tree) (a b : Address) :
    (t.removeAll a).get? b = if a <+: b ∧ a ≠ [] then none else t.get? b := by
  rw [removeAll, get?_dropWhere]
  by_cases hp : a <+: b ∧ a ≠ []
  · have hb : b ≠ [] := by
      rintro rfl
      exact hp.2 (List.prefix_nil.1 hp.1)
    simp [hp.1, hp.2, hb]
  · rw [if_neg hp, if_neg]
    simpa using fun h1 h2 => absurd ⟨h1, h2⟩ hp

end Tree

end ElementModules
