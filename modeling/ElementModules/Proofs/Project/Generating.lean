import ElementModules.Project.Generation
import ElementModules.Proofs.Tree.Rewriting

/-!
# Writing generated modules

A generated module is written where nothing is found, and the directory of the modules is made for
it. If the directory cannot be made or the name is too long, it may happen that some directories are
made all the same. But whatever happens: the module is not written a second time, not even in a later
tree, if modules that differ are kept (`write_of_rewrites`).

## Main results

* `rewrites_write`: what the generation of a module writes.
* `write_of_rewrites`: a module that was generated is not generated again.
* `isChange_of_write`: a change that is reported is a change.
-/

namespace ElementModules.Project

open ElementModules.Tree Descriptor

variable {t t' t'' : Tree} {p : Path} {w : ModuleWriter} {m : ElementModule}
  {q : Address → Content → Prop} {ds : Address → Prop}

namespace ModuleWriter

/-- Where a module is written. -/
def target (w : ModuleWriter) (m : ElementModule) : Path := w.dir.join ⟨m.fileName⟩

/-- Where nothing is found, a module is created. -/
theorem write_of_notFound (h : t.readText (w.target m) = .error .notFound) :
    (w.write t m).1 = (w.create t (w.target m) m.text).1
      ∧ ((w.create t (w.target m) m.text).2 ≠ .ok () →
        (w.write t m).2.outcome.isChange = false) := by
  unfold write
  unfold target at h ⊢
  simp only [h]
  cases hc : w.create t (w.dir.join ⟨m.fileName⟩) m.text with
  | mk t₁ result =>
    cases result with
    | error e => exact ⟨rfl, fun _ => rfl⟩
    | ok u => exact ⟨rfl, fun hne => absurd rfl hne⟩

/-- What is found is kept. -/
theorem write_of_found (hkeep : w.overwrite = false)
    (h : t.readText (w.target m) ≠ .error .notFound) :
    (w.write t m).1 = t ∧ (w.write t m).2.outcome.isChange = false := by
  unfold write
  unfold target at h
  dsimp only
  split
  · split
    · exact ⟨rfl, rfl⟩
    · rw [hkeep]
      exact ⟨rfl, rfl⟩
  next hc => exact absurd hc h
  · exact ⟨rfl, rfl⟩

/-- What is made where a module cannot be written, and what is written where it can. -/
theorem create_cases (w : ModuleWriter) (t : Tree) (p : Path) (x : Text) :
    (∃ e, (w.create t p x).1 = (t.makeDirs w.dir).1 ∧ (t.makeDirs w.dir).2 = .error e
        ∧ (w.create t p x).2 ≠ .ok ())
      ∨ (∃ e, (w.create t p x).1 = (t.makeDirs w.dir).1 ∧ (t.makeDirs w.dir).2 = .ok ()
        ∧ (t.makeDirs w.dir).1.writeText p x = .error e ∧ (w.create t p x).2 ≠ .ok ())
      ∨ (t.makeDirs w.dir).2 = .ok () ∧ (t.makeDirs w.dir).1.writeText p x = .ok (w.create t p x).1 := by
  rw [create]
  cases hm : t.makeDirs w.dir with
  | mk t₁ result =>
    cases result with
    | error e => exact .inl ⟨e, rfl, rfl, by simp⟩
    | ok u =>
      cases hw : t₁.writeText p x with
      | error e => exact .inr (.inl ⟨e, by simp [hw], rfl, rfl, by simp [hw]⟩)
      | ok t₂ => exact .inr (.inr ⟨rfl, by simp [hw]⟩)

end ModuleWriter

open ModuleWriter

/-- What was written is found. -/
theorem readText_of_writeText {x : Text} (h : t.writeText p x = .ok t') :
    t'.readText p ≠ .error .notFound := by
  rw [readText_writeText h]
  simp

/-- If a file cannot be written in a directory that was made, although its path leads somewhere in some
tree and nothing is found there, its path can only stand for a directory. -/
theorem requiresDirectory_of_writeText {d : Path} {x : Text} {a : Address} {e : Fault} (hd : d.IsDown)
    (hp : p.IsDown) (haddress : p.address.dropLast = d.address) (hmade : (t.makeDirs d).2 = .ok ())
    (hl : t'.locate p = .ok a) (hnone : (t.makeDirs d).1.readText p = .error .notFound)
    (h : (t.makeDirs d).1.writeText p x = .error e) : p.requiresDirectory = true := by
  obtain ⟨hempty, hnull, habsolute, -, hsize, -⟩ := (locate_eq_ok_iff hp).1 hl
  have hl' : (t.makeDirs d).1.locate p = .ok p.address := by
    refine (locate_eq_ok_iff hp).2 ⟨hempty, hnull, habsolute, rfl, hsize, fun b hb hne => ?_⟩
    have hbd : b <+: d.address := haddress ▸ prefix_dropLast_of_ne hb hne
    rcases isDir_of_makeDirs hmade with hnil | hdir
    · rw [Path.address, hnil] at hbd
      rw [List.prefix_nil.1 hbd, get?_nil]
    · obtain ⟨c, hc, hg⟩ := isDir_iff.1 hdir
      obtain rfl := eq_address_of_locate hd hc
      by_cases hbe : b = d.address
      · rwa [hbe]
      · exact get?_of_isPrefix hg hbd hbe
  have hg : (t.makeDirs d).1.get? p.address = none := by
    rcases (readText_eq_notFound_iff hp).1 hnone with hc | hc
    · rw [hl'] at hc
      cases hc
    · exact hc.2
  rw [writeText, writeFile, hl'] at h
  simp only [hg] at h
  cases hr : p.requiresDirectory with
  | true => rfl
  | false =>
    rw [hr] at h
    cases h

section Write

variable (hdir : w.dir.IsDown) (hp : (w.target m).IsDown) (hkeep : w.overwrite = false)
include hdir hp hkeep

/-- What the generation of a module writes. -/
theorem rewrites_write (t : Tree) :
    Rewrites (fun a c => a = (w.target m).address ∧ c = .text m.text) (· <+: w.dir.address) t
      (w.write t m).1 := by
  by_cases hr : t.readText (w.target m) = .error .notFound
  · rw [(write_of_notFound hr).1]
    have hmade : Rewrites (fun a c => a = (w.target m).address ∧ c = .text m.text)
        (· <+: w.dir.address) t (t.makeDirs w.dir).1 :=
      (Rewrites.of_addsDirs (addsDirs_makeDirs hdir t)).mono (fun _ _ hc => hc.elim) fun _ => id
    rcases create_cases w t (w.target m) m.text with ⟨e, h, -⟩ | ⟨e, h, -⟩ | ⟨-, h⟩
    · rwa [h]
    · rwa [h]
    · exact hmade.trans ((Rewrites.of_writeText hp h).mono (fun _ _ => id) fun _ hc => hc.elim)
  · rw [(write_of_found hkeep hr).1]
    exact .refl _ _ t

/-- A module that was generated is not generated again. -/
theorem write_of_rewrites (hk : Rewrites q ds (w.write t m).1 t'')
    (hdot : w.dir.endsWithDot = true → w.dir.components = [.here])
    (haddress : (w.target m).address.dropLast = w.dir.address)
    (hq : ∀ a, a <+: w.dir.address → ∀ c, ¬ q a c) : (w.write t'' m).1 = t'' := by
  by_cases hnone : t''.readText (w.target m) = .error .notFound
  · have hkeeps : Keeps (· <+: w.dir.address) (w.write t m).1 t'' := hk.keeps hq
    -- nothing was found right after the first time, either
    have hbefore : (w.write t m).1.readText (w.target m) = .error .notFound := by
      by_contra hne
      refine hk.readText_ne_notFound hp (fun b hb hbne => hq b ?_) hne hnone
      rw [← haddress]
      exact prefix_dropLast_of_ne hb hbne
    have hfirst : t.readText (w.target m) = .error .notFound := by
      by_contra hne
      rw [(write_of_found hkeep hne).1] at hbefore
      exact hne hbefore
    rw [(write_of_notFound hfirst).1] at hk hkeeps hbefore
    rw [(write_of_notFound hnone).1]
    have hsame : (t''.makeDirs w.dir).1 = t'' := by
      refine makeDirs_of_keeps hdir (t := t) ?_
      rcases create_cases w t (w.target m) m.text with ⟨e, h, -⟩ | ⟨e, h, -⟩ | ⟨-, h⟩
      · exact h ▸ hkeeps
      · exact h ▸ hkeeps
      · exact absurd hbefore (readText_of_writeText h)
    -- nothing was written the first time, so the place is blocked
    have hblocked : (t''.makeDirs w.dir).2 = .ok () → IsBlocked t'' (w.target m) := by
      intro hok
      rcases create_cases w t (w.target m) m.text with ⟨e, h, hmade, -⟩ | ⟨e, h, hmade, hwrite, -⟩ | ⟨-, h⟩
      · have hnotOk : (t.makeDirs w.dir).2 ≠ .ok () := by simp [hmade]
        have hno := isDir_of_keeps_of_blocked hdir hdot hnotOk (h ▸ hkeeps)
        rcases isDir_of_makeDirs hok with hnil | hyes
        · exact absurd hnil (components_ne_nil_of_blocked hnotOk)
        · have hyes' : (t''.makeDirs w.dir).1.isDir w.dir = true := hyes
          rw [hsame, hno] at hyes'
          cases hyes'
      · by_cases hl : ∃ a, t''.locate (w.target m) = .ok a
        · obtain ⟨a, hl⟩ := hl
          rw [h] at hbefore
          exact .inr (requiresDirectory_of_writeText hdir hp haddress hmade hl hbefore hwrite)
        · exact .inl fun a ha => hl ⟨a, ha⟩
      · exact absurd hbefore (readText_of_writeText h)
    rcases create_cases w t'' (w.target m) m.text with ⟨e, h, -⟩ | ⟨e, h, -⟩ | ⟨hok, h⟩
    · rw [h, hsame]
    · rw [h, hsame]
    · obtain ⟨e, he⟩ := writeFile_of_isBlocked (hblocked hok) (.text m.text)
      rw [hsame, writeText, he] at h
      cases h
  · exact (write_of_found hkeep hnone).1

end Write

/-- A change that is reported is a change. -/
theorem isChange_of_write (hkeep : w.overwrite = false)
    (h : (w.write t m).1 = t) : (w.write t m).2.outcome.isChange = false := by
  by_cases hr : t.readText (w.target m) = .error .notFound
  · obtain ⟨hfst, hfailed⟩ := write_of_notFound hr
    rcases create_cases w t (w.target m) m.text with ⟨e, -, -, hbad⟩ | ⟨e, -, -, -, hbad⟩ | ⟨-, hw⟩
    · exact hfailed hbad
    · exact hfailed hbad
    · rw [← hfst, h] at hw
      exact absurd hr (readText_of_writeText hw)
  · exact (write_of_found hkeep hr).2

end ElementModules.Project
