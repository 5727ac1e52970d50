import ElementModules.Proofs.Script.Declaring

/-!
# Statements with the shape of a binding

The shape of a statement is read off its words, the head of a literal character by character. Where
the shape is that of a binding, a head can be read at the start of the statement
(`isSome_parse?_of_statementKind`), so a binding that stands alone declares something
(`isSome_declaration?_of_binding`).

## Main results

* `BindingStart.head?_of_parse?`: the letters with which a head starts.
* `isSome_declaration?_of_binding`: a binding declares.
-/

namespace ElementModules.Script

open Text

/-- The keyword of a binding is the first word of its head. -/
theorem find?_keyword (t : Text) :
    (["const", "let", "var"] : List Text).find? (fun k => (Token.word? k t).isSome)
      = (Declarator.parse? t).map fun r => r.1.word := by
  simp only [Declarator.parse?, List.find?, List.findSome?, Declarator.word]
  cases Token.word? "const" t <;> cases Token.word? "let" t <;> cases Token.word? "var" t <;> rfl

theorem Declarator.word?_of_parse? {t : Text} {k : Declarator} {r : Text}
    (h : Declarator.parse? t = some (k, r)) : Token.word? k.word t = some r := by
  obtain ⟨d, -, hd⟩ := List.exists_of_findSome?_eq_some h
  obtain ⟨u, hu, hd⟩ := Option.map_eq_some_iff.1 hd
  obtain ⟨rfl, rfl⟩ := Prod.mk.inj hd
  exact hu

theorem Declarator.head?_of_parse? {t : Text} (h : (Declarator.parse? t).isSome = true) :
    ∃ c u, t = c :: u ∧ (c = 'c' ∨ c = 'l' ∨ c = 'v') := by
  obtain ⟨⟨k, r⟩, hk⟩ := Option.isSome_iff_exists.1 h
  obtain ⟨rfl, -⟩ := Token.word?_eq_some (Declarator.word?_of_parse? hk)
  cases k
  · exact ⟨'c', _, rfl, by decide⟩
  · exact ⟨'l', _, rfl, by decide⟩
  · exact ⟨'v', _, rfl, by decide⟩

/-- Reads a head behind the word `export`: the keyword, the name and the text from the brace on. -/
def bindingTail? (t : Text) : Option (Declarator × Text × Text) :=
  (Declarator.parse? t).bind fun k => (Token.someBlanks? k.2).bind fun t =>
    (Token.name? t).bind fun n => (Token.char? '=' (Token.blanks n.2)).bind fun t =>
      (BindingStart.brace? (Token.blanks t)).map fun o => (k.1, n.1, o)

theorem parse?_eq_bindingTail? (t : Text) :
    BindingStart.parse? t = (BindingStart.exportWord? t).bind fun e =>
      (bindingTail? e.2).map fun b => ⟨e.1, b.1, b.2.1, b.2.2⟩ := by
  simp only [BindingStart.parse?_eq, bindingTail?, Option.map_bind, Option.map_map,
    Function.comp_def]

theorem isSome_bindingTail?_of_bindingKind {exported e : Bool} {t x : Text}
    (h : bindingKind exported t = .binding x e) : (bindingTail? t).isSome = true := by
  rw [bindingKind] at h
  simp only [find?_keyword] at h
  split at h
  · cases h
  · rename_i n v hv
    simp only [Option.bind_eq_bind, Option.bind_eq_some_iff, Option.map_eq_some_iff,
      Option.pure_def, Option.some.injEq] at hv
    obtain ⟨_, ⟨⟨k, r⟩, hk, rfl⟩, r', hr', u, hu, ⟨m, w⟩, hm, y, hy, he⟩ := hv
    obtain rfl : r' = r := Option.some.inj (hr'.symm.trans (Declarator.word?_of_parse? hk))
    obtain ⟨rfl, rfl⟩ := Prod.mk.inj he
    have hbrace : (Token.blanks y).head? = some '\x7b' := by
      by_contra hn
      rw [if_neg hn] at h
      split at h
      · split at h
        · cases h
        · split at h <;> cases h
      · cases h
    simp [bindingTail?, hk, hu, hm, hy, BindingStart.brace?, hbrace]

theorem isSome_parse?_of_bindingTail? {t : Text} (h : (bindingTail? t).isSome = true) :
    (Declarator.parse? t).isSome = true := by
  rw [bindingTail?] at h
  cases hp : Declarator.parse? t with
  | none => rw [hp] at h; cases h
  | some _ => rfl

/-- A blank parts a word from the keyword behind it. -/
theorem someBlanks?_of_word? {w t rest : Text} (hw : Token.word? w t = some rest)
    (h : (bindingTail? (Token.blanks rest)).isSome = true) :
    Token.someBlanks? rest = some (Token.blanks rest) := by
  rw [Token.someBlanks?]
  split
  · rfl
  · rename_i hn
    have hrest : Token.blanks rest = rest := by
      rw [Token.blanks]
      cases rest with
      | nil => rfl
      | cons c rest => exact List.dropWhile_cons_of_neg (by simpa using hn)
    rw [hrest] at h
    obtain ⟨c, u, rfl, hc⟩ := Declarator.head?_of_parse? (isSome_parse?_of_bindingTail? h)
    have hnot := (Token.word?_eq_some hw).2
    rcases hc with rfl | rfl | rfl <;> cases hnot

/-- A statement with the shape of a binding starts with a head. -/
theorem isSome_parse?_of_statementKind {t x : Text} {e : Bool}
    (h : statementKind t = .binding x e) : (BindingStart.parse? t).isSome = true := by
  rw [parse?_eq_bindingTail?, BindingStart.exportWord?]
  rw [statementKind] at h
  split at h
  · cases h
  · cases hw : Token.word? "export" t with
    | none =>
      rw [hw] at h
      simp only at h
      have hk : bindingKind false t = .binding x e := by
        split at h
        · cases h
        · split at h
          · cases h
          · exact h
      simpa using isSome_bindingTail?_of_bindingKind hk
    | some rest =>
      rw [hw] at h
      simp only at h
      split at h
      · cases h
      · have htail := isSome_bindingTail?_of_bindingKind h
        simpa [someBlanks?_of_word? hw htail] using htail

/-- A head starts with a letter with which a binding may start. -/
theorem BindingStart.head?_of_parse? {t : Text} (h : (BindingStart.parse? t).isSome = true) :
    ∃ c u, t = c :: u ∧ (c = 'e' ∨ c = 'c' ∨ c = 'l' ∨ c = 'v') := by
  rw [parse?_eq_bindingTail?, exportWord?] at h
  cases hw : Token.word? "export" t with
  | some rest =>
    obtain ⟨rfl, -⟩ := Token.word?_eq_some hw
    exact ⟨'e', _, rfl, by decide⟩
  | none =>
    simp only [hw, Option.bind_some, Option.isSome_map] at h
    obtain ⟨c, u, rfl, hc⟩ := Declarator.head?_of_parse? (isSome_parse?_of_bindingTail? h)
    exact ⟨c, u, rfl, .inr hc⟩

/-- **A binding** declares what its head says. -/
theorem isSome_declaration?_of_binding {p x : Text} {e : Bool} (h : shape p = .binding x e) :
    (declaration? p).isSome = true := by
  obtain ⟨b, b', hp, hb, hb'⟩ := exists_eq_blanks_trim_blanks p
  have hparse : (BindingStart.parse? (trim p)).isSome = true := by
    rw [shape, kindOf, chars_marks] at h
    split at h
    · cases h
    · split at h
      · cases h
      · exact isSome_parse?_of_statementKind h
  obtain ⟨c, u, hu, hc⟩ := BindingStart.head?_of_parse? hparse
  have hscan := (Scans.plain (fun y hy => isPlain_of_isBlank (hb y hy)) []).marks (trim p ++ b')
  have hm : marks p = codeMarks 0 b ++ marks (trim p ++ b') := by
    conv_lhs => rw [hp, List.append_assoc]
    exact hscan
  rw [declaration?_isSome_iff, hm]
  refine firstHead_append_ne_nil ?_ ?_
  · intro m hm
    obtain ⟨y, hy, rfl⟩ := List.mem_map.1 (List.mem_of_getLast? hm)
    exact startsWord_of_isBlank (hb y hy)
  · have hfirst : marks (trim p ++ b')
        = ⟨c, State.layer .start c (u ++ b').head?, 0⟩
          :: marksFrom (State.step .start c) (u ++ b') := by
      rw [hu]
      rfl
    have hstart : startsBinding none (marks (trim p ++ b')) = true := by
      have hmay : ∀ next, mayStartBinding none ⟨c, State.layer .start c next, 0⟩ = true := by
        intro next
        rcases hc with rfl | rfl | rfl | rfl <;> rfl
      have hwhole : (BindingStart.parse? (trim p ++ b')).isSome = true := by
        rw [← hparse]
        exact BindingStart.isSome_parse?_congr
          (headView_append (BindingStart.exists_endsHead hparse).2 b' false)
      have hchars : chars (marks (trim p ++ b')) = trim p ++ b' := chars_marks _
      rw [hfirst] at hchars ⊢
      rw [startsBinding, hmay, hchars, hwhole]
      rfl
    rw [hfirst] at hstart ⊢
    rw [firstHead, if_pos hstart]
    exact List.cons_ne_nil _ _

end ElementModules.Script
