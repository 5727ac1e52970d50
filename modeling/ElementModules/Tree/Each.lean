import ElementModules.Tree.Basic

/-!
# Sequences of operations

An operation that changes a tree and answers is carried out for the items of a list in order. Main
statements: `each_append`, two lists one after the other are worked on one after the other, and
`each_done`, what an operation achieves for its item holds at the end if no later one undoes it.
-/

namespace ElementModules.Tree

variable {α β : Type}

/-- Carries out an operation for the items of a list in order and collects the answers. -/
def each (f : Tree → α → Tree × β) (t : Tree) : List α → Tree × List β
  | [] => (t, [])
  | a :: as =>
    let (t, b) := f t a
    let (t, bs) := t.each f as
    (t, b :: bs)

@[simp] theorem each_nil (f : Tree → α → Tree × β) (t : Tree) : t.each f [] = (t, []) := rfl

theorem each_cons (f : Tree → α → Tree × β) (t : Tree) (a : α) (as : List α) :
    t.each f (a :: as)
      = (((f t a).1.each f as).1, (f t a).2 :: ((f t a).1.each f as).2) := rfl

theorem each_append (f : Tree → α → Tree × β) (t : Tree) (as bs : List α) :
    t.each f (as ++ bs)
      = (((t.each f as).1.each f bs).1, (t.each f as).2 ++ ((t.each f as).1.each f bs).2) := by
  induction as generalizing t with
  | nil => rfl
  | cons a as ih => simp [each_cons, ih]

/-- What holds of a tree and the items that are left and is kept by every operation holds at the end. -/
theorem each_induct_rest {P : List α → Tree → Prop} {f : Tree → α → Tree × β} {t : Tree} {as : List α}
    (h : P as t) (hstep : ∀ t a rest, a :: rest <:+ as → P (a :: rest) t → P rest (f t a).1) :
    P [] (t.each f as).1 := by
  induction as generalizing t with
  | nil => exact h
  | cons a as ih =>
    rw [each_cons]
    exact ih (hstep t a as List.suffix_rfl h) fun t b rest hb =>
      hstep t b rest (hb.trans (List.suffix_cons a as))

/-- What holds of a tree and is kept by every operation holds at the end. -/
theorem each_induct {P : Tree → Prop} {f : Tree → α → Tree × β} {t : Tree} {as : List α} (h : P t)
    (hstep : ∀ t, ∀ a ∈ as, P t → P (f t a).1) : P (t.each f as).1 :=
  each_induct_rest (P := fun _ => P) h fun t a _ hrest => hstep t a (hrest.subset List.mem_cons_self)

/-- What holds of a tree and the answers so far and is kept by every operation holds at the end. -/
theorem each_induct_answers {P : Tree → List β → Prop} {f : Tree → α → Tree × β} {t : Tree}
    {as : List α} (h : P t [])
    (hstep : ∀ t bs, ∀ a ∈ as, P t bs → P (f t a).1 (bs ++ [(f t a).2])) :
    P (t.each f as).1 (t.each f as).2 := by
  suffices hall : ∀ t bs, P t bs → P (t.each f as).1 (bs ++ (t.each f as).2) from hall t [] h
  clear h
  induction as with
  | nil => simp
  | cons a as ih =>
    intro t bs ht
    rw [each_cons]
    have hrest := ih (fun t bs b hb => hstep t bs b (List.mem_cons_of_mem _ hb)) _ _
      (hstep t bs a List.mem_cons_self ht)
    rwa [List.append_assoc] at hrest

theorem each_map {γ : Type} (f : Tree → α → Tree × β) (g : γ → α) (t : Tree) (as : List γ) :
    t.each f (as.map g) = t.each (fun t a => f t (g a)) as := by
  induction as generalizing t with
  | nil => rfl
  | cons a as ih => rw [List.map_cons, each_cons, each_cons, ih]

/-- Operations that change nothing leave the tree as it is. -/
theorem each_unchanged {f : Tree → α → Tree × β} {t : Tree} {as : List α}
    (h : ∀ a ∈ as, (f t a).1 = t) : (t.each f as).1 = t :=
  each_induct (P := (· = t)) rfl fun _ a ha hu => hu ▸ h a ha

/-- The answers of operations that change nothing. -/
theorem each_answers {f : Tree → α → Tree × β} {t : Tree} {as : List α}
    (h : ∀ a ∈ as, (f t a).1 = t) : ∀ b ∈ (t.each f as).2, ∃ a ∈ as, b = (f t a).2 := by
  induction as with
  | nil => simp
  | cons a as ih =>
    have hrest := ih fun b hb => h b (List.mem_cons_of_mem a hb)
    rw [each_cons, h a List.mem_cons_self]
    intro b hb
    rcases List.mem_cons.1 hb with rfl | hb
    · exact ⟨a, List.mem_cons_self, rfl⟩
    · obtain ⟨a', ha', rfl⟩ := hrest b hb
      exact ⟨a', List.mem_cons_of_mem a ha', rfl⟩

/-- A sequence of operations that change nothing and give answers with a property. -/
theorem exists_each_eq {f : Tree → α → Tree × β} {t : Tree} {as : List α} {P : β → Prop}
    (h : ∀ a ∈ as, (f t a).1 = t ∧ P (f t a).2) : ∃ bs, t.each f as = (t, bs) ∧ ∀ b ∈ bs, P b := by
  refine ⟨(t.each f as).2, Prod.ext (each_unchanged fun a ha => (h a ha).1) rfl, fun b hb => ?_⟩
  obtain ⟨a, ha, rfl⟩ := each_answers (fun a ha => (h a ha).1) b hb
  exact (h a ha).2

section Answers

variable {G : β → Prop} {f : Tree → α → Tree × β} {t : Tree} {as : List α}
  (hG : ∀ b ∈ (t.each f as).2, G b)
include hG

/-- What is kept by every operation whose answer has a property holds at the end, if all answers have
it. -/
theorem each_induct_of_answers {P : Tree → Prop} (h : P t)
    (hstep : ∀ t, ∀ a ∈ as, P t → G (f t a).2 → P (f t a).1) : P (t.each f as).1 := by
  induction as generalizing t with
  | nil => exact h
  | cons a as ih =>
    rw [each_cons] at hG ⊢
    obtain ⟨hfirst, hrest⟩ := List.forall_mem_cons.1 hG
    exact ih hrest (hstep t a List.mem_cons_self h hfirst) fun t b hb =>
      hstep t b (List.mem_cons_of_mem _ hb)

/-- **What an operation achieves** for its item holds at the end, if the operations for later items
keep it. All answers have a property. -/
theorem each_done_of_answers {I : Tree → Prop} {P : α → Tree → Prop} (hI : I t)
    (hstep : ∀ t, ∀ a ∈ as, I t → G (f t a).2 → I (f t a).1)
    (hdone : ∀ t, ∀ a ∈ as, I t → G (f t a).2 → P a (f t a).1)
    (hkeep : as.Pairwise fun a b => ∀ t, I t → G (f t b).2 → P a t → P a (f t b).1) :
    ∀ a ∈ as, P a (t.each f as).1 := by
  induction as generalizing t with
  | nil => simp
  | cons a as ih =>
    obtain ⟨hfirst, hrest⟩ := List.pairwise_cons.1 hkeep
    rw [each_cons] at hG ⊢
    obtain ⟨hGa, hGas⟩ := List.forall_mem_cons.1 hG
    have hI' := hstep t a List.mem_cons_self hI hGa
    have hstep' : ∀ t, ∀ b ∈ as, I t → G (f t b).2 → I (f t b).1 := fun t b hb =>
      hstep t b (List.mem_cons_of_mem _ hb)
    intro b hb
    rcases List.mem_cons.1 hb with rfl | hb
    · have hboth : I ((f t b).1.each f as).1 ∧ P b ((f t b).1.each f as).1 :=
        each_induct_of_answers (P := fun u => I u ∧ P b u) hGas
          ⟨hI', hdone t b List.mem_cons_self hI hGa⟩
          fun u c hc ⟨hu, hb⟩ hGc => ⟨hstep' u c hc hu hGc, hfirst c hc u hu hGc hb⟩
      exact hboth.2
    · exact ih hGas hI' hstep' (fun t c hc => hdone t c (List.mem_cons_of_mem _ hc)) hrest b hb

/-- **What an operation achieves** for its item holds at the end, if all operations lead along a relation
that keeps it. All answers have a property. -/
theorem each_along {R : Tree → Tree → Prop} {P : α → Tree → Prop} (refl : R t t)
    (trans : ∀ u v, R t u → R u v → R t v)
    (hstep : ∀ u, ∀ a ∈ as, R t u → G (f u a).2 → R u (f u a).1 ∧ P a (f u a).1)
    (hkeep : ∀ a ∈ as, ∀ u v, R u v → P a u → P a v) :
    R t (t.each f as).1 ∧ ∀ a ∈ as, P a (t.each f as).1 := by
  have hI : ∀ u, ∀ a ∈ as, R t u → G (f u a).2 → R t (f u a).1 := fun u a ha hu hGa =>
    trans u _ hu (hstep u a ha hu hGa).1
  refine ⟨each_induct_of_answers hG refl hI,
    each_done_of_answers hG refl hI (fun u a ha hu hGa => (hstep u a ha hu hGa).2) ?_⟩
  exact List.pairwise_of_forall_mem_list fun a ha b hb u hu hGb hP =>
    hkeep a ha u _ (hstep u b hb hu hGb).1 hP

end Answers

/-- What an operation achieves for its item holds at the end, if the operations for later items keep
it. -/
theorem each_done {I : Tree → Prop} {P : α → Tree → Prop} {f : Tree → α → Tree × β} {t : Tree}
    {as : List α} (hI : I t) (hstep : ∀ t, ∀ a ∈ as, I t → I (f t a).1)
    (hdone : ∀ t, ∀ a ∈ as, I t → P a (f t a).1)
    (hkeep : as.Pairwise fun a b => ∀ t, I t → P a t → P a (f t b).1) :
    ∀ a ∈ as, P a (t.each f as).1 :=
  each_done_of_answers (G := fun _ => True) (fun _ _ => trivial) hI (fun t a ha hI _ => hstep t a ha hI)
    (fun t a ha hI _ => hdone t a ha hI) (hkeep.imp fun h t hI _ => h t hI)

/-- **What an operation achieves** for its item, with the answer that it gives, holds at the end, if
the operations for later items keep it. -/
theorem each_answered {f : Tree → α → Tree × β} {as : List α} {P : α → β → Tree → Prop}
    (hdone : ∀ t, ∀ a ∈ as, P a (f t a).2 (f t a).1)
    (hkeep : as.Pairwise fun a a' => ∀ t b, P a b t → P a b (f t a').1) (t : Tree) :
    ∀ y ∈ as.zip (t.each f as).2, P y.1 y.2 (t.each f as).1 := by
  induction as generalizing t with
  | nil => simp
  | cons a as ih =>
    obtain ⟨hfirst, hrest⟩ := List.pairwise_cons.1 hkeep
    rw [each_cons, List.zip_cons_cons, List.forall_mem_cons]
    refine ⟨?_, ih (fun t a ha => hdone t a (List.mem_cons_of_mem _ ha)) hrest _⟩
    exact each_induct (P := P a (f t a).2) (hdone t a List.mem_cons_self)
      fun u a' ha' hu => hfirst a' ha' u _ hu

/-- What is the same of an answer in every tree. -/
theorem map_each {γ : Type} {f : Tree → α → Tree × β} {as : List α} {g : β → γ} {k : α → γ}
    (h : ∀ t, ∀ a ∈ as, g (f t a).2 = k a) (t : Tree) : (t.each f as).2.map g = as.map k := by
  induction as generalizing t with
  | nil => rfl
  | cons a as ih =>
    rw [each_cons, List.map_cons, List.map_cons, h t a List.mem_cons_self,
      ih fun t b hb => h t b (List.mem_cons_of_mem _ hb)]

theorem length_each (f : Tree → α → Tree × β) (t : Tree) (as : List α) :
    (t.each f as).2.length = as.length := by
  have hunits : (t.each f as).2.map (fun _ => ()) = as.map fun _ => () := by
    refine map_each ?_ t
    exact fun _ _ _ => rfl
  simpa using congrArg List.length hunits

/-- Operations that change nothing answer one by one. -/
theorem each_repeated {γ : Type} {f : Tree → α → Tree × β} {t : Tree} {as : List α} {g k : β → γ}
    {bs : List β} (hlength : bs.length = as.length)
    (h : ∀ y ∈ as.zip bs, (f t y.1).1 = t ∧ g (f t y.1).2 = k y.2) :
    (t.each f as).1 = t ∧ (t.each f as).2.map g = bs.map k := by
  induction as generalizing bs with
  | nil => simpa using List.length_eq_zero_iff.1 hlength
  | cons a as ih =>
    cases bs with
    | nil => cases hlength
    | cons b bs =>
      rw [List.zip_cons_cons, List.forall_mem_cons] at h
      obtain ⟨⟨hfst, hb⟩, hrest⟩ := h
      obtain ⟨hsame, hmap⟩ := ih (Nat.succ.inj hlength) hrest
      rw [each_cons, hfst]
      exact ⟨hsame, by rw [List.map_cons, List.map_cons, hmap, hb]⟩

end ElementModules.Tree
