import SampleStream.Cursor

/-!
# What readers do with lexemes

A reader looks at lexemes only; spans serve its complaints. `Reads` says what a reader makes of a text
that begins with what it reads: the value and the lexemes behind it if the nesting fits, and the complaint
about nesting if it does not. `Takes` says what a reader that succeeded has read, and `Leaves` where it has
stopped. All go through a sequence of readers step by step (`Reads.bind`, `Takes.bind`, `Leaves.bind`).
-/

namespace SampleStream

namespace Cursor

/-- The lexemes still to come. -/
def lexemes (c : Cursor) : List Lexeme :=
  c.rest.map Token.lexeme

@[simp] theorem lexemes_start (tokens : List Token) :
    (Cursor.start tokens).lexemes = tokens.map Token.lexeme := rfl

theorem next_eq_headD (c : Cursor) : c.next = c.lexemes.headD .done := by
  obtain ⟨last, rest⟩ := c
  cases rest <;> rfl

theorem next_of_lexemes {c : Cursor} {l : Lexeme} {ls : List Lexeme} (h : c.lexemes = l :: ls) :
    c.next = l := by
  rw [next_eq_headD, h, List.headD_cons]

theorem lexemes_skip {c : Cursor} {l : Lexeme} {ls : List Lexeme} (h : c.lexemes = l :: ls) :
    c.skip.lexemes = ls := by
  obtain ⟨last, rest⟩ := c
  cases rest with
  | nil => simp [lexemes] at h
  | cons t ts =>
    simp only [lexemes, List.map_cons, List.cons.injEq] at h
    exact h.2

theorem length_rest (c : Cursor) : c.rest.length = c.lexemes.length := by
  rw [lexemes, List.length_map]

-- A lexeme that is not the end of the text is there to be skipped.
theorem lexemes_eq_cons {c : Cursor} {l : Lexeme} (h : c.next = l) (hl : l ≠ .done) :
    c.lexemes = l :: c.skip.lexemes := by
  cases hc : c.lexemes with
  | nil => rw [next_eq_headD, hc] at h; exact absurd h.symm hl
  | cons k ks =>
    rw [next_of_lexemes hc] at h
    rw [lexemes_skip hc, h]

theorem expect_eq_ok {c : Cursor} {l : Lexeme} {ls : List Lexeme} (h : c.lexemes = l :: ls) :
    c.expect l = .ok c.skip := by
  rw [expect, if_pos (next_of_lexemes h)]

theorem name_eq_ok {c : Cursor} {x : String} {ls : List Lexeme} (h : c.lexemes = .name x :: ls) :
    c.name = .ok (x, c.skip) := by
  rw [name, next_of_lexemes h]

theorem lexemes_of_expect {c d : Cursor} {l : Lexeme} (hl : l ≠ .done) (h : c.expect l = .ok d) :
    c.lexemes = l :: d.lexemes := by
  unfold expect at h
  split at h
  · rename_i hn
    cases h
    exact lexemes_eq_cons hn hl
  · cases h

theorem lexemes_of_name {c d : Cursor} {x : String} (h : c.name = .ok (x, d)) :
    c.lexemes = .name x :: d.lexemes := by
  unfold name at h
  split at h
  · rename_i y hn
    cases h
    exact lexemes_eq_cons hn (by simp)
  · cases h

theorem closed_eq_ok {α : Type} {a b : α} {c : Cursor} (h : Cursor.closed (a, c) = .ok b) :
    c.next = .done ∧ b = a := by
  unfold Cursor.closed at h
  split at h
  · rename_i hdone
    cases h
    exact ⟨hdone, rfl⟩
  · cases h

theorem closed_of_next_ne {α : Type} (a : α) {c : Cursor} (h : c.next ≠ .done) : ∃ span,
    Cursor.closed (a, c) = .error ⟨span, .unexpected ["end of input"] c.next.describe⟩ := by
  unfold Cursor.closed
  split
  · rename_i hdone
    exact absurd hdone h
  · refine ⟨c.peek.span, ?_⟩
    rw [Cursor.expected]
    cases hnext : c.next with
    | done => exact absurd hnext h
    | _ => rfl

end Cursor

variable {α β γ : Type}

theorem exists_of_bind_eq_ok {ε : Type} {x : Except ε γ} {f : γ → Except ε β} {b : β}
    (h : (x >>= f) = .ok b) : ∃ y, x = .ok y ∧ f y = .ok b := by
  cases x with
  | error e => cases h
  | ok y => exact ⟨y, rfl, h⟩

/-- The complaint that a text nests too deep, wherever it points. -/
def TooDeep (r : Except SyntaxError α) : Prop :=
  ∃ span, r = .error ⟨span, .nestingTooDeep maxNesting⟩

theorem TooDeep.bind {r : Except SyntaxError α} (h : TooDeep r) (f : α → Except SyntaxError β) :
    TooDeep (r >>= f) := by
  obtain ⟨span, rfl⟩ := h
  exact ⟨span, rfl⟩

theorem tooDeep_tooDeep (c : Cursor) : TooDeep (.error c.tooDeep : Except SyntaxError α) :=
  ⟨_, rfl⟩

/-- The reader gives `a` and leaves `rest` if the nesting fits, and complains of the nesting if not. -/
def Reads (fits : Prop) (a : α) (rest : List Lexeme) (r : Except SyntaxError (α × Cursor)) : Prop :=
  (fits → ∃ c, r = .ok (a, c) ∧ c.lexemes = rest) ∧ (¬fits → TooDeep r)

namespace Reads

variable {fits more : Prop} {a : α} {b : β} {rest after : List Lexeme}
  {r : Except SyntaxError (α × Cursor)} {f : α × Cursor → Except SyntaxError (β × Cursor)}

theorem pure {c : Cursor} (h : c.lexemes = rest) : Reads True a rest (.ok (a, c)) :=
  ⟨fun _ => ⟨c, rfl, h⟩, fun hn => absurd trivial hn⟩

theorem congr (h : Reads fits a rest r) (hf : fits ↔ more) : Reads more a rest r :=
  ⟨fun hm => h.1 (hf.mpr hm), fun hm => h.2 (fun hn => hm (hf.mp hn))⟩

-- Of two readers in sequence the second is reached only if what the first reads fits.
theorem bind (h : Reads fits a rest r)
    (hf : ∀ c, c.lexemes = rest → Reads more b after (f (a, c))) :
    Reads (fits ∧ more) b after (r >>= f) := by
  constructor
  · rintro ⟨hfits, hmore⟩
    obtain ⟨c, rfl, hc⟩ := h.1 hfits
    exact (hf c hc).1 hmore
  · intro hn
    by_cases hfits : fits
    · obtain ⟨c, rfl, hc⟩ := h.1 hfits
      exact (hf c hc).2 (fun hmore => hn ⟨hfits, hmore⟩)
    · exact (h.2 hfits).bind f

-- A fixed lexeme that is there.
theorem expect {c : Cursor} {l : Lexeme} {f : Cursor → Except SyntaxError (β × Cursor)}
    (hc : c.lexemes = l :: rest) (hf : ∀ d, d.lexemes = rest → Reads fits b after (f d)) :
    Reads fits b after (c.expect l >>= f) := by
  rw [Cursor.expect_eq_ok hc]
  exact hf c.skip (Cursor.lexemes_skip hc)

theorem name {c : Cursor} {x : String} {f : String × Cursor → Except SyntaxError (β × Cursor)}
    (hc : c.lexemes = .name x :: rest) (hf : ∀ d, d.lexemes = rest → Reads fits b after (f (x, d))) :
    Reads fits b after (c.name >>= f) := by
  rw [Cursor.name_eq_ok hc]
  exact hf c.skip (Cursor.lexemes_skip hc)

-- A reader whose value is only wrapped up.
theorem map (h : Reads fits a rest r) (hf : ∀ c, c.lexemes = rest → Reads True b after (f (a, c))) :
    Reads fits b after (r >>= f) :=
  (h.bind hf).congr (by rw [and_true])

end Reads

/-- Where the reader succeeds, it has read lexemes that `Q` relates to its value. -/
def Takes (c : Cursor) (Q : α → List Lexeme → Prop) (r : Except SyntaxError (α × Cursor)) : Prop :=
  ∀ a d, r = .ok (a, d) → ∃ ls, c.lexemes = ls ++ d.lexemes ∧ Q a ls

namespace Takes

variable {c : Cursor} {Q R : α → List Lexeme → Prop}

theorem error (e : SyntaxError) : Takes c Q (.error e) := by
  intro a d h
  cases h

-- A value for which nothing more is read.
theorem pure {a : α} (hQ : Q a []) : Takes c Q (.ok (a, c)) := by
  intro a' d h
  cases h
  exact ⟨[], rfl, hQ⟩

theorem mono {r : Except SyntaxError (α × Cursor)} (h : Takes c Q r)
    (hQR : ∀ a ls, Q a ls → R a ls) : Takes c R r := by
  intro a d hr
  obtain ⟨ls, hc, hQ⟩ := h a d hr
  exact ⟨ls, hc, hQR a ls hQ⟩

-- What two readers in sequence read stands in sequence.
theorem bind {r : Except SyntaxError (α × Cursor)} {f : α × Cursor → Except SyntaxError (β × Cursor)}
    {P : β → List Lexeme → Prop} (h : Takes c Q r)
    (hf : ∀ a d ls, Q a ls → Takes d (fun b ms => P b (ls ++ ms)) (f (a, d))) :
    Takes c P (r >>= f) := by
  intro b d hr
  obtain ⟨⟨a, d'⟩, ha, hb⟩ := exists_of_bind_eq_ok hr
  obtain ⟨ls, hc, hQ⟩ := h a d' ha
  obtain ⟨ms, hd, hP⟩ := hf a d' ls hQ b d hb
  exact ⟨ls ++ ms, by rw [hc, hd, List.append_assoc], hP⟩

-- A fixed lexeme in front of what a reader reads.
theorem bind_expect {l : Lexeme} (hl : l ≠ .done) {f : Cursor → Except SyntaxError (β × Cursor)}
    {P : β → List Lexeme → Prop} (hf : ∀ d, Takes d (fun b ms => P b (l :: ms)) (f d)) :
    Takes c P (c.expect l >>= f) := by
  intro b d hr
  obtain ⟨d', he, hb⟩ := exists_of_bind_eq_ok hr
  obtain ⟨ms, hd, hP⟩ := hf d' b d hb
  exact ⟨l :: ms, by rw [Cursor.lexemes_of_expect hl he, hd, List.cons_append], hP⟩

-- A lexeme that was looked at before it is skipped.
theorem skip {l : Lexeme} (hc : c.next = l) (hl : l ≠ .done)
    {r : Except SyntaxError (α × Cursor)} (h : Takes c.skip (fun a ms => Q a (l :: ms)) r) :
    Takes c Q r := by
  intro a d hr
  obtain ⟨ms, hd, hQ⟩ := h a d hr
  exact ⟨l :: ms, by rw [Cursor.lexemes_eq_cons hc hl, hd, List.cons_append], hQ⟩

theorem name : Takes c (fun x ls => ls = [Lexeme.name x]) c.name := by
  intro x d h
  exact ⟨[.name x], Cursor.lexemes_of_name h, rfl⟩

end Takes

/-- Where the reader succeeds, `Q` relates its value and the place where it stops. -/
def Leaves (Q : α → Cursor → Prop) (r : Except SyntaxError (α × Cursor)) : Prop :=
  ∀ a d, r = .ok (a, d) → Q a d

namespace Leaves

variable {P : α → Cursor → Prop} {Q : β → Cursor → Prop}

theorem error (e : SyntaxError) : Leaves Q (.error e) := by
  intro a d h
  cases h

theorem pure {b : β} {d : Cursor} (h : Q b d) : Leaves Q (.ok (b, d)) := by
  intro b' d' hd
  cases hd
  exact h

-- Of what is read before, nothing need be known.
theorem after {x : Except SyntaxError γ} {f : γ → Except SyntaxError (β × Cursor)}
    (hf : ∀ y, Leaves Q (f y)) : Leaves Q (x >>= f) := by
  intro b d h
  obtain ⟨y, -, hy⟩ := exists_of_bind_eq_ok h
  exact hf y b d hy

theorem bind {r : Except SyntaxError (α × Cursor)} {f : α × Cursor → Except SyntaxError (β × Cursor)}
    (h : Leaves P r) (hf : ∀ a d, P a d → Leaves Q (f (a, d))) : Leaves Q (r >>= f) := by
  intro b d hb
  obtain ⟨⟨a, c⟩, hr, hfa⟩ := exists_of_bind_eq_ok hb
  exact hf a c (h a c hr) b d hfa

end Leaves

end SampleStream
