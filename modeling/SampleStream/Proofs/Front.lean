import SampleStream.Proofs.Continuation

/-!
# How far a scan gets

A scan that is refused has read the front of the text, and a piece that is no lexeme comes next (`front_of_tokens`).
The front is scanned to the same tokens by itself (`Front.closed`), so that the piece is the first one that is wrong.
-/

namespace SampleStream

/-- What has been scanned of a text that begins at an offset, where `after` is still to come: each lexeme with the
place of its spelling. -/
inductive Front (after : List Char) : Nat → List Char → List Token → Prop
  | nil {offset : Nat} : Front after offset [] []
  | blank {offset : Nat} {c : Char} {cs : List Char} {ts : List Token} (hc : Scan.isBlank c = true)
      (rest : Front after (offset + 1) cs ts) : Front after offset (c :: cs) ts
  | lexeme {offset : Nat} {l : Lexeme} {text cs : List Char} {ts : List Token} (first : Spelling l text)
      (apart : Apart l (cs ++ after)) (rest : Front after (offset + utf8Length text) cs ts) :
      Front after offset (text ++ cs) (⟨l, ⟨offset, offset + utf8Length text⟩⟩ :: ts)

namespace Front

variable {after cs : List Char} {offset : Nat} {ts : List Token}

-- From the front on the scan goes on with what is still to come.
theorem tokens (h : Front after offset cs ts) : Scan.tokens offset (cs ++ after) =
    (Scan.tokens (offset + utf8Length cs) after).map (ts ++ ·) := by
  induction h with
  | @nil offset =>
    change Scan.tokens offset after = (Scan.tokens offset after).map id
    cases Scan.tokens offset after <;> rfl
  | blank hc rest ih =>
    rw [List.cons_append, Scan.tokens_of_blank hc, ih, utf8Length, utf8Size_of_isBlank hc, Nat.add_assoc]
  | @lexeme offset l text cs ts first apart rest ih =>
    obtain ⟨c, ds, htext, hblank, hcut⟩ := Scan.cutsTo_of_spelling first apart
    have hreading : (Scan.cut c ds).reading = .ok l := by rw [hcut]
    rw [List.append_assoc, htext, Scan.tokens_of_lexeme (by simp [hblank]) hreading, hcut]
    simp only [ih, utf8Length_append, ← Nat.add_assoc]
    cases Scan.tokens (offset + utf8Length text + utf8Length cs) after <;> rfl

-- What is apart from a text with more behind it is apart from that text.
theorem alone (h : Front after offset cs ts) : Front [] offset cs ts := by
  induction h with
  | nil => exact .nil
  | blank hc rest ih => exact .blank hc ih
  | @lexeme offset l text cs ts first apart rest ih =>
    refine .lexeme first ?_ ih
    rw [List.append_nil]
    cases cs with
    | nil => exact apart_nil l
    | cons c cs => exact apart.congr rfl

/-- The front of a text is scanned by itself as it is in the text. -/
theorem closed (h : Front after offset cs ts) : Scan.tokens offset cs =
    .ok (ts ++ [⟨.done, .point (offset + utf8Length cs)⟩]) := by
  have htokens := h.alone.tokens
  rwa [List.append_nil, Scan.tokens] at htokens

end Front

namespace Scan

/-- The piece that begins with the character is no lexeme, and the complaint is about it. -/
structure Refuses (offset : Nat) (c : Char) (cs : List Char) (e : SyntaxError) : Prop where
  isBlank : isBlank c = false
  flaw : ∃ flaw, (cut c cs).reading = .error flaw ∧
    e = ⟨⟨offset, offset + utf8Length (cut c cs).text⟩, flaw.cause (cut c cs).text⟩

-- Every text is scanned up to its end or to a piece that is no lexeme.
theorem front_of_tokens (offset : Nat) (cs : List Char) : ∃ front after ts, cs = front ++ after ∧
    Front after offset front ts ∧ (after = [] ∨ ∃ c rest e, after = c :: rest ∧
      Refuses (offset + utf8Length front) c rest e ∧ tokens offset cs = .error e) := by
  fun_induction tokens offset cs with
  | case1 offset => exact ⟨[], [], [], rfl, .nil, .inl rfl⟩
  | case2 offset c cs hblank ih =>
    obtain ⟨front, after, ts, rfl, hfront, hend⟩ := ih
    refine ⟨c :: front, after, ts, rfl, .blank hblank hfront, ?_⟩
    rwa [utf8Length, utf8Size_of_isBlank hblank, ← Nat.add_assoc]
  | case3 offset c cs hblank piece stop flaw hreading =>
    rw [Bool.not_eq_true] at hblank
    exact ⟨[], c :: cs, [], rfl, .nil, .inr ⟨c, cs, _, rfl, ⟨hblank, flaw, hreading, rfl⟩, rfl⟩⟩
  | case4 offset c cs hblank piece stop l hreading ih =>
    obtain ⟨front, after, ts, hrest, hfront, hend⟩ := ih
    obtain ⟨hspelling, hapart⟩ := spelling_of_cut hreading
    have hcut : piece.text ++ front ++ after = c :: cs := by
      rw [List.append_assoc, ← hrest, cut_text_append_rest]
    refine ⟨piece.text ++ front, after, _, hcut.symm, .lexeme hspelling (hrest ▸ hapart) hfront, ?_⟩
    rw [utf8Length_append, ← Nat.add_assoc]
    obtain hend | ⟨d, rest, e, hafter, hrefuses, herror⟩ := hend
    · exact .inl hend
    · exact .inr ⟨d, rest, e, hafter, hrefuses, by rw [herror]; rfl⟩

theorem front_of_error {offset : Nat} {cs : List Char} {e : SyntaxError} (h : tokens offset cs = .error e) :
    ∃ front c rest ts, cs = front ++ c :: rest ∧ Front (c :: rest) offset front ts ∧
      Refuses (offset + utf8Length front) c rest e := by
  obtain ⟨front, after, ts, rfl, hfront, rfl | ⟨c, rest, e', rfl, hrefuses, herror⟩⟩ :=
    front_of_tokens offset cs
  · rw [List.append_nil, hfront.closed] at h
    cases h
  · rw [h] at herror
    cases herror
    exact ⟨front, c, rest, ts, rfl, hfront, hrefuses⟩

theorem isBlank_of_isWordChar {c : Char} (h : isWordChar c = true) : isBlank c = false := by
  rw [isWordChar, Bool.or_eq_true] at h
  exact h.elim isBlank_of_isWordStart isBlank_of_isDigit

theorem isBlank_of_mem_refused {text : List Char} (h : ∀ d ∈ text, isBlank d = false) (rest : List Char) :
    ∀ d ∈ (refused text rest).text, isBlank d = false :=
  List.forall_mem_append.mpr ⟨h, fun _ hd => isBlank_of_isWordChar (List.mem_takeWhile_imp hd)⟩

theorem isBlank_of_mem_number (negative : Bool) (cs : List Char) :
    ∀ d ∈ (number negative cs).text, isBlank d = false := by
  have hdigits (ds : List Char) : ∀ d ∈ ds.takeWhile Numeral.isDigit, isBlank d = false :=
    fun d hd => isBlank_of_isDigit (List.mem_takeWhile_imp hd)
  have hsign : ∀ d ∈ sign negative, isBlank d = false := by
    have hall : (sign negative).all (fun d => !isBlank d) = true := by cases negative <;> decide
    simpa using hall
  have hwhole := List.forall_mem_append.mpr ⟨hsign, hdigits cs⟩
  by_cases hpoint : (cs.dropWhile Numeral.isDigit).head? = some '.'
  · obtain ⟨rest, hrest⟩ := List.head?_eq_some_iff.mp hpoint
    have htext := List.forall_mem_append.mpr
      ⟨hwhole, List.forall_mem_cons.mpr ⟨(by decide : isBlank '.' = false), hdigits rest⟩⟩
    rw [number_of_point negative hrest]
    split
    · exact isBlank_of_mem_refused htext _
    · exact htext
  · rw [number_of_no_point negative hpoint]
    split
    · exact isBlank_of_mem_refused hwhole _
    · exact hwhole

theorem isBlank_of_mem_symbol {c : Char} (hc : isBlank c = false) (cs : List Char) :
    ∀ d ∈ (symbol c cs).text, isBlank d = false := by
  have hone : ∀ d ∈ (oneChar c cs).text, isBlank d = false := by
    simpa [oneChar] using hc
  unfold symbol
  split
  · exact hone
  · rename_i d rest
    split
    · rename_i s hs
      have hsymbol := s.isBlank_of_mem_text
      rwa [(double?_cases hs).2.2.2.2] at hsymbol
    · split
      · exact isBlank_of_mem_number true (d :: rest)
      · exact hone

-- No piece goes on across a blank.
theorem isBlank_of_mem_cut {c : Char} (hc : isBlank c = false) (cs : List Char) :
    ∀ d ∈ (cut c cs).text, isBlank d = false := by
  unfold cut
  split
  · exact fun d hd => isBlank_of_isWordChar (List.mem_takeWhile_imp hd)
  · split
    · exact isBlank_of_mem_number false (c :: cs)
    · exact isBlank_of_mem_symbol hc cs

end Scan

end SampleStream
