import ElementModules.Descriptor.IndexModule
import ElementModules.Proofs.Descriptor.Header
import ElementModules.Proofs.Descriptor.Lines

/-!
# The header of an index module

An index module starts with a block comment that holds the name of the library as it is. The header
is one comment if the name does not end it (`contents_indexHeader`).

A text of comments and blanks leaves the scan in code or in a comment, outside all brackets
(`State.IsCommenting.run`). So where the header is one comment, its last line feed closes it
(`closedBy_of_comment`): a comment that ended before the last line would end with its own line.

## Main results

* `contents_indexHeader`: a name that does not end the comment makes the header one comment.
* `closedBy_indexHeader`: a header that is one comment is closed by its line feed.
-/

namespace ElementModules.Script

open Text

/-! ### Texts of comments and blanks -/

/-- The scan is in code or in a comment, outside all brackets. -/
structure State.IsCommenting (s : State) : Prop where
  stack : s.stack = []
  mode : s.isInLiteral = false

theorem State.isCommenting_stepCode {s : State} (hs : s.stack = []) {c : Char} {next : Option Char}
    (hc : isAsciiBlank c = true ∨ s.layerInCode c next = .comment) :
    (s.stepCode c).IsCommenting := by
  rcases hc with hc | hc
  · rw [s.stepCode_blank (isBlank_of_isAsciiBlank hc)]
    exact ⟨hs, rfl⟩
  · have hslash : c = '/' := by
      rw [layerInCode] at hc
      split_ifs at hc with h
      rw [Bool.and_eq_true, decide_eq_true_eq] at h
      exact h.1
    subst hslash
    exact ⟨hs, rfl⟩

namespace State.IsCommenting

variable {s : State} (h : s.IsCommenting)
include h

/-- A blank or a character of a comment leads neither into a bracket nor into a string. -/
theorem step {c : Char} {next : Option Char}
    (hc : isAsciiBlank c = true ∨ s.layer c next = .comment) : (s.step c).IsCommenting := by
  obtain ⟨mode, stack⟩ := s
  obtain ⟨hs, hmode⟩ := h
  cases mode with
  | code => exact isCommenting_stepCode hs hc
  | slash =>
    simp only [State.step]
    split_ifs with h₁ h₂
    · exact ⟨hs, rfl⟩
    · exact ⟨hs, rfl⟩
    · have hlayer : layer ⟨.slash, stack⟩ c next = layerInCode ⟨.slash, stack⟩ c next :=
        if_neg (by simp [h₁, h₂])
      exact isCommenting_stepCode hs (hlayer ▸ hc)
  | lineComment | blockComment | blockStar =>
    simp only [State.step]
    split_ifs <;> exact ⟨hs, rfl⟩
  | quoted | quotedEscape | template | templateDollar | templateEscape => cases hmode

theorem run {a b : Text}
    (hc : ∀ m ∈ marksFrom s (a ++ b), isAsciiBlank m.char = true ∨ m.layer = .comment) :
    (s.run a).IsCommenting := by
  induction a generalizing s with
  | nil => exact h
  | cons c a ih =>
    rw [List.cons_append, marksFrom, List.forall_mem_cons] at hc
    exact ih (h.step hc.1) hc.2

/-- A line feed outside of block comments is code. -/
theorem newline : s.IsTopLevelAt '\n' ∨ s.step '\n' = ⟨.blockComment, []⟩ := by
  obtain ⟨mode, stack⟩ := s
  obtain ⟨rfl, hmode⟩ := h
  cases mode with
  | code | slash | lineComment => exact .inl ⟨rfl, rfl⟩
  | blockComment | blockStar => exact .inr rfl
  | quoted | quotedEscape | template | templateDollar | templateEscape => cases hmode

end State.IsCommenting

/-- **A comment with the end of a block comment on its last line** is closed by its line feed. -/
theorem closedBy_of_comment {a : Text} (hp : IsPiece (a ++ '\n' :: [' ', '*', '/', '\n']))
    (hs : shape (a ++ '\n' :: [' ', '*', '/', '\n']) = .comment) :
    ClosedBy '\n' (a ++ '\n' :: [' ', '*', '/', '\n']) := by
  have hstart : State.start.IsCommenting := ⟨rfl, rfl⟩
  have ha : (endState a).IsCommenting := hstart.run (blank_or_comment_of_shape hs)
  rcases ha.newline with hat | hat
  · -- The line feed in front of the last line ends a segment, so there are two.
    exfalso
    have hseam : Seam (a ++ ['\n']) [' ', '*', '/', '\n'] := .inl ⟨a, rfl, hat⟩
    have hpieces := hp.pieces_eq
    rw [List.append_cons, hseam.pieces_append] at hpieces
    have hlen := congrArg List.length hpieces
    obtain ⟨n, ns, hn, -⟩ := exists_pieces_eq_cons hseam.closed.ne_nil
    obtain ⟨n', ns', hn', -⟩ :=
      exists_pieces_eq_cons (b := [' ', '*', '/', '\n']) (List.cons_ne_nil _ _)
    rw [hn, hn'] at hlen
    simp only [List.length_append, List.length_cons, List.length_nil] at hlen
    omega
  · refine ⟨a ++ '\n' :: [' ', '*', '/'], by simp, ?_⟩
    rw [endState_append, State.run_cons, hat]
    exact ⟨rfl, rfl⟩

/-- **A text without the end of a comment** is read as comment inside a block comment. -/
theorem comments_of_not_contains {t : Text} (h : contains "*/" t = false) {s : State}
    (hs : s.IsInside t.head?) :
    ∃ mode, (mode = .blockComment ∨ mode = .blockStar) ∧ Comments s t ⟨mode, s.stack⟩ := by
  induction t generalizing s with
  | nil => exact ⟨s.mode, hs.imp id And.left, .nil s⟩
  | cons c t ih =>
    rw [contains, Bool.or_eq_false_iff] at h
    obtain ⟨mode, hmode, hc⟩ := ih h.2
      (s := ⟨if c = '*' then .blockStar else .blockComment, s.stack⟩) (by
        by_cases hstar : c = '*'
        · subst hstar
          refine .inr ⟨rfl, fun ht => ?_⟩
          obtain ⟨t, rfl⟩ := List.head?_eq_some_iff.1 ht
          exact absurd h.1 (by simp)
        · exact .inl (if_neg hstar))
    exact ⟨mode, hmode, (Comments.char hs).append hc⟩

end ElementModules.Script

namespace ElementModules.Descriptor

open Text Script

/-- The header of an index module. -/
def indexHeader (library : Text) : Text :=
  "/**\n * " ++ library ++ " element index\n * Generated by tk-migrate; do not edit.\n */\n"

/-- The header up to the name of the library. -/
def headerOpening : Text := ['/', '*'] ++ (("*\n *" : Text) ++ [' '])

/-- The header from the name of the library to the end of its second line. -/
def headerNote : Text := " element index\n * Generated by tk-migrate; do not edit."

theorem indexHeader_eq (library : Text) :
    indexHeader library
      = headerOpening ++ library ++ headerNote ++ '\n' :: [' ', '*', '/', '\n'] := by
  have h₁ : ("/**\n * " : Text) = headerOpening := by decide
  have h₂ : (" element index\n * Generated by tk-migrate; do not edit.\n */\n" : Text)
      = headerNote ++ '\n' :: [' ', '*', '/', '\n'] := by decide
  have h : indexHeader library = ("/**\n * " : Text) ++ library
      ++ (" element index\n * Generated by tk-migrate; do not edit.\n */\n" : Text) := rfl
  rw [h, h₁, h₂, List.append_assoc _ headerNote]

/-- The header without the line feed behind it. -/
def indexComment (library : Text) : Text :=
  headerOpening ++ library ++ headerNote ++ '\n' :: [' ', '*', '/']

theorem indexHeader_eq_comment (library : Text) :
    indexHeader library = indexComment library ++ ['\n'] := by
  rw [indexHeader_eq, indexComment]
  simp only [List.append_assoc, List.cons_append, List.nil_append]

theorem getLast?_indexComment (library : Text) :
    ∀ c ∈ (indexComment library).getLast?, isBlank c = false := by
  intro c hc
  rw [indexComment, List.getLast?_append] at hc
  obtain rfl : '/' = c := Option.some.inj hc
  rfl

theorem comments_indexComment {library : Text} (h : contains "*/" library = false) :
    Comments .start (indexComment library) .start := by
  have hstart : Comments ⟨.blockComment, []⟩ (("*\n *" : Text) ++ [' ']) ⟨.blockComment, []⟩ :=
    .plain (by decide) (.inl rfl)
  obtain ⟨mode, hmode, hlibrary⟩ :=
    comments_of_not_contains h (s := ⟨.blockComment, []⟩) (.inl rfl)
  have hnote : Comments ⟨mode, []⟩ (headerNote ++ ['\n'] ++ [' ']) ⟨.blockComment, []⟩ :=
    .plain (by decide) hmode
  have hall := (((Comments.opening.append hstart).append hlibrary).append hnote).append .closing
  rw [← headerOpening] at hall
  simpa only [indexComment, List.append_assoc, List.singleton_append, List.cons_append,
    List.nil_append] using hall

/-- **A name that does not end the comment** makes the header one comment. -/
theorem contents_indexHeader {library : Text} (h : contains "*/" library = false) :
    contents (indexHeader library) = [(.comment, indexHeader library)] := by
  have hne : indexComment library ≠ [] := by simp [indexComment]
  obtain ⟨hentry, hshape⟩ := isEntry_of_comments (comments_indexComment h) hne
    (getLast?_indexComment library)
  rw [indexHeader_eq_comment, hentry.isPiece_newline.contents_eq, shape_append_newline, hshape]

/-- A header that is one comment is closed by its line feed. -/
theorem closedBy_indexHeader {library : Text}
    (h : contents (indexHeader library) = [(.comment, indexHeader library)]) :
    ClosedBy '\n' (indexHeader library) := by
  have hpieces : (pieces (indexHeader library)).map (fun p => (shape p, p))
      = [(.comment, indexHeader library)] := by rw [← contents_eq, h]
  obtain ⟨p, hp, hshape⟩ := List.map_eq_singleton_iff.1 hpieces
  obtain ⟨hs, rfl⟩ := Prod.mk.inj hshape
  have hpiece := isPiece_of_mem_pieces (hp ▸ List.mem_singleton_self _)
  rw [indexHeader_eq] at hpiece hs ⊢
  exact closedBy_of_comment hpiece hs

end ElementModules.Descriptor
