import SampleStream.Proofs.Tiling
import SampleStream.Proofs.Writing

/-!
# Texts that go on differently

A text may be cut in front of any of its tokens and go on with other lexemes, and its tokens up to there stay
what and where they were (`tokenize_continued`).
-/

namespace SampleStream

-- Where each lexeme has its place, that is what the text is scanned to.
theorem Placed.tokens {offset : Nat} {cs : List Char} {ts : List Token} (h : Placed offset cs ts) :
    Scan.tokens offset cs = .ok ts := by
  induction h with
  | nil => rw [Scan.tokens]
  | blank hc rest ih => rw [Scan.tokens, if_pos hc, ih]
  | @lexeme offset l text cs ts first apart rest ih =>
    obtain ⟨c, ds, htext, hblank, hcut⟩ := Scan.cutsTo_of_spelling first apart
    rw [htext, Scan.tokens, if_neg (by simp [hblank])]
    simp only [hcut, ih]
    rfl

theorem placed_of_spells {cs : List Char} {ls : List Lexeme} (h : Spells cs ls) (offset : Nat) :
    ∃ ts, Placed offset cs ts ∧ ts.map Token.lexeme = ls ++ [.done] := by
  obtain ⟨ts, hts, hmap⟩ := Scan.tokens_of_spells h offset
  exact ⟨ts, Scan.placed_of_tokens offset cs hts, hmap⟩

-- Whether a lexeme is apart from what follows is seen at the first character.
theorem Apart.congr {l : Lexeme} {cs ds : List Char} (h : Apart l cs) (hhead : ds.head? = cs.head?) :
    Apart l ds := by
  have hruns : Scan.runsOn ds = Scan.runsOn cs := by
    cases cs <;> cases ds <;> simp_all [Scan.runsOn]
  cases l with
  | name x => exact hruns.trans h
  | index n => exact ⟨hruns.trans h.1, hhead ▸ h.2⟩
  | sample s => exact hruns.trans h
  | keyword k => exact hruns.trans h
  | symbol s => rwa [Scan.apart_symbol_iff, hhead, ← Scan.apart_symbol_iff]
  | done => trivial

/-- The lexemes one after the other, a blank in front of each. -/
def spaced (ls : List Lexeme) : List Char :=
  ls.flatMap fun l => ' ' :: l.written

theorem breaks_spaced (ls : List Lexeme) : Breaks (spaced ls) := by
  intro c hc
  cases ls with
  | nil => cases hc
  | cons l ls =>
    cases hc
    exact .inl rfl

theorem spells_spaced {ls : List Lexeme} (h : ∀ l ∈ ls, l.IsWritable) : Spells (spaced ls) ls := by
  induction ls with
  | nil => exact .nil
  | cons l ls ih =>
    rw [List.forall_mem_cons] at h
    exact .blank rfl (.lexeme (Lexeme.spelling_written h.1) ((breaks_spaced ls).apart l) (ih h.2))

-- The text in front of the place where it goes on differently stays as it is, so that the first lexemes are
-- apart from what follows them as before.
theorem Placed.continued {offset : Nat} {cs : List Char} {ts : List Token} (h : Placed offset cs ts)
    {ls : List Lexeme} (hls : ∀ l ∈ ls, l.IsWritable) : ∀ n < ts.length, ∃ ds us, Placed offset ds us ∧
      (ds.head? = cs.head? ∨ Breaks ds) ∧ us.take n = ts.take n ∧
      (us.drop n).map Token.lexeme = ls ++ [.done] := by
  have hfresh (offset : Nat) (ts : List Token) : ∃ ds us, Placed offset ds us ∧ Breaks ds ∧
      us.take 0 = ts.take 0 ∧ (us.drop 0).map Token.lexeme = ls ++ [.done] := by
    obtain ⟨us, hus, hmap⟩ := placed_of_spells (spells_spaced hls) offset
    exact ⟨spaced ls, us, hus, breaks_spaced ls, rfl, hmap⟩
  induction h with
  | nil =>
    intro n hn
    obtain rfl : n = 0 := by simpa using hn
    obtain ⟨ds, us, hus, hbreaks, htake, hdrop⟩ := hfresh _ _
    exact ⟨ds, us, hus, .inr hbreaks, htake, hdrop⟩
  | @blank offset c cs ts hc rest ih =>
    intro n hn
    obtain ⟨ds, us, hus, -, htake, hdrop⟩ := ih n hn
    exact ⟨c :: ds, us, .blank hc hus, .inl rfl, htake, hdrop⟩
  | @lexeme offset l text cs ts first apart rest ih =>
    intro n hn
    cases n with
    | zero =>
      obtain ⟨ds, us, hus, hbreaks, htake, hdrop⟩ := hfresh offset (⟨l, ⟨offset, _⟩⟩ :: ts)
      exact ⟨ds, us, hus, .inr hbreaks, htake, hdrop⟩
    | succ n =>
      obtain ⟨ds, us, hus, hhead, htake, hdrop⟩ := ih n (Nat.lt_of_succ_lt_succ hn)
      have hapart : Apart l ds := hhead.elim apart.congr fun hbreaks => hbreaks.apart l
      obtain ⟨c, text, rfl⟩ := List.exists_cons_of_ne_nil first.ne_nil
      refine ⟨_, _, .lexeme first hapart hus, .inl rfl, ?_, hdrop⟩
      rw [List.take_succ_cons, List.take_succ_cons, htake]

/-- In front of any token a text may go on with other lexemes. -/
theorem tokenize_continued {source : String} {ts : List Token} (h : tokenize source = .ok ts) {n : Nat}
    (hn : n < ts.length) {ls : List Lexeme} (hls : ∀ l ∈ ls, l.IsWritable) :
    ∃ other us, tokenize other = .ok us ∧ us.take n = ts.take n ∧
      (us.drop n).map Token.lexeme = ls ++ [.done] := by
  have hplaced := Scan.placed_of_tokens 0 source.toList h
  obtain ⟨ds, us, hus, -, htake, hdrop⟩ := hplaced.continued hls n hn
  refine ⟨.ofList ds, us, ?_, htake, hdrop⟩
  rw [tokenize, String.toList_ofList]
  exact hus.tokens

end SampleStream
