import PassingStyle.Proofs.NextLine
import PassingStyle.Proofs.Resumption

/-!
# What more input could mend

A text that cannot be read may be the beginning of one that can. The mark of a syntax error that
says so, `SyntaxError.incomplete`, is set where the end of the input meets an open construct. It
is an approximation in both directions. A list with a dot in the wrong place is still open and
so the mark is set, but nothing closes that list any more. And an error before the end of the
input is final for the tokens there are, but a quote in a later line can make other tokens of
them: an unclosed atom becomes a literal that swallows whatever was wrong behind it.

`Reader.completable_iff` says exactly which texts a later line mends. Without dots every marked
error can be mended, and without quotes no other one can.
-/

namespace PassingStyle

open Text

/-- **More input mends the text**: some text makes it readable, behind a newline. -/
def Reader.Completable (r : Reader) (x : Text) : Prop :=
  ∃ y gaps es, r.readAll (x ++ byte '\n' :: y) = (gaps, .ok es)

namespace Reading

/-- **The items can be completed as they are**: all constructs that they leave open can be
closed. -/
def EndsClosable (items : List Item) : Prop :=
  ∃ gaps r, advance false items .start = (gaps, .ok r) ∧ Closable r.frames

/-- **The items have an unclosed token where a literal may stand**: all constructs that are open
before it take one more element. -/
def Reopens (items : List Item) : Prop :=
  ∃ before t behind gaps r, items = before ++ .token t :: behind ∧ t.isUnclosed = true ∧
    advance false before .start = (gaps, .ok r) ∧ ∀ f ∈ r.frames, f.Takes

/-- Only dots make the mark of an error wrong, where the tokens stay as they are. -/
theorem endsClosable_of_dotless {items : List Item} {gaps : List Gap} {err : SyntaxError}
    (h : run false items .start = (gaps, .error err)) (hinc : err.incomplete = true)
    (hdots : ∀ t, .token t ∈ items → t.kind ≠ .dot) : EndsClosable items := by
  rcases run_eq_error_iff.1 h with ⟨hfinal, _⟩ | ⟨_, r, hadvance, _⟩
  · exact nomatch hfinal.symm.trans hinc
  · have hdotless := (reaches_of_advance hadvance).dotless hdots
      fun _ hf => absurd hf List.not_mem_nil
    exact ⟨gaps, r, hadvance, closable_of_takes fun f hf => (hdotless f hf).takes⟩

end Reading

namespace Tokenizer

/-- Closing parentheses are tokens. -/
theorem scanFrom_closings (pos n : Nat) : ∃ closings : List Token,
    standard.scanFrom pos 0 (List.replicate n (byte ')')) = closings.map .token ∧
      closings.length = n ∧ ∀ c ∈ closings, c.kind = .rparen := by
  induction n generalizing pos with
  | zero => exact ⟨[], rfl, rfl, fun _ hc => absurd hc List.not_mem_nil⟩
  | succ n ih =>
    obtain ⟨closings, hscan, hlength, hkinds⟩ := ih (pos + 1)
    have htoken : standard.scanFrom pos 0 ([byte ')'] ++ List.replicate n (byte ')')) =
        .token ⟨.rparen, [byte ')'], ⟨pos, pos + 1⟩⟩ ::
          standard.scanFrom (pos + 1) 0 (List.replicate n (byte ')')) :=
      scanFrom_token (List.cons_ne_nil _ _) rfl (by decide)
    refine ⟨⟨.rparen, [byte ')'], ⟨pos, pos + 1⟩⟩ :: closings, ?_, congrArg (· + 1) hlength,
      List.forall_mem_cons.2 ⟨rfl, hkinds⟩⟩
    rw [List.map_cons, ← hscan]
    exact htoken

/-- An empty list is a token. -/
theorem scanFrom_nil_token (pos : Nat) (rest : Text) :
    standard.scanFrom pos 0 ("'()" ++ rest) =
      .token ⟨.nil, "'()", ⟨pos, pos + 3⟩⟩ :: standard.scanFrom (pos + 3) 0 rest :=
  scanFrom_token (by decide) rfl (by decide)

end Tokenizer

namespace Reader

open Reading Tokenizer Lexeme

/-- **What a later line mends** is left open, or has an unclosed token in the right place. -/
theorem cases_of_completable {x : Text} (h : standard.Completable x) :
    EndsClosable (Tokenizer.standard.scan x) ∨ Reopens (Tokenizer.standard.scan x) := by
  obtain ⟨y, gaps, es, hrun⟩ := h
  change run false (Tokenizer.standard.scan (x ++ byte '\n' :: y)) .start = _ at hrun
  by_cases hopen : byte '"' ∈ y ∧ ∃ t, .token t ∈ Tokenizer.standard.scan x ∧ t.isUnclosed = true
  · obtain ⟨hy, t, ht, hunclosed⟩ := hopen
    obtain ⟨n, hn⟩ := Option.ne_none_iff_exists'.1 fun hnone => closing?_eq_none_iff.1 hnone hy
    obtain ⟨content, after, rfl, rfl⟩ := exists_of_closing? hn
    obtain ⟨before, behind, hx⟩ := List.append_of_mem ht
    obtain ⟨literal, s, hliteral, hscan⟩ := scan_reopened content after hx hunclosed hn
    rw [hscan] at hrun
    obtain ⟨gaps', r, hbefore, hrest⟩ := advance_of_run_append hrun
    rw [run_cons (step_atom hliteral r)] at hrest
    exact Or.inr ⟨before, t, behind, gaps', r, hx, hunclosed, hbefore,
      (closable_deliver_iff Sexp.noConfusion _ _).1 (closable_of_run hrest)⟩
  · have hq : byte '"' ∈ y → ∀ t, .token t ∈ Tokenizer.standard.scan x → t.isUnclosed = false :=
      fun hy t ht => Bool.eq_false_iff.2 fun hunclosed => hopen ⟨hy, t, ht, hunclosed⟩
    rw [scan_newline hq] at hrun
    obtain ⟨gaps', r, hx, hrest⟩ := advance_of_run_append hrun
    exact Or.inl ⟨gaps', r, hx, closable_of_run hrest⟩

/-- A continuation that is read. -/
theorem completable_of_run {x : Text} (y : Text) (es : List Sexp)
    (h : (run false (Tokenizer.standard.scan (x ++ byte '\n' :: y)) .start).2 = .ok es) :
    standard.Completable x :=
  ⟨y, _, es, Prod.ext rfl h⟩

/-- What is left open is closed by parentheses, after an atom if need be. -/
theorem completable_of_endsClosable {x : Text} (h : EndsClosable (Tokenizer.standard.scan x)) :
    standard.Completable x := by
  obtain ⟨gaps, r, hadvance, hclosable⟩ := h
  -- neither continuation has a quote
  have hnext : ∀ y, byte '"' ∉ y → ∀ es,
      run false (Tokenizer.standard.scanFrom (x.length + 1) 0 y) r = ([], .ok es) →
      standard.Completable x := by
    intro y hy es hrun
    refine completable_of_run y es ?_
    rw [scan_newline fun hin => absurd hin hy, run_append_of_ok hadvance, hrun]
  have hparens : ∀ n, byte '"' ∉ List.replicate n (byte ')') := fun n hin =>
    absurd (List.eq_of_mem_replicate hin) (by decide)
  rcases hclosable.cases with ⟨start, items, rest, hframes, hitems, hrest⟩ | htakes
  · obtain ⟨closings, hscan, hlength, hkinds⟩ :=
      scanFrom_closings (x.length + 1) (openLists rest + 1)
    obtain ⟨es, hrun⟩ := run_closings_list false start hitems hrest r.done r.stop hkinds
      hlength
    rw [← hframes, ← hscan] at hrun
    exact hnext _ (hparens _) es hrun
  · obtain ⟨closings, hscan, hlength, hkinds⟩ :=
      scanFrom_closings (x.length + 1 + 3) (openLists r.frames)
    obtain ⟨es, hrun⟩ := run_atom_closings false htakes
      (a := ⟨.nil, "'()", ⟨x.length + 1, x.length + 1 + 3⟩⟩) rfl hkinds hlength
    rw [← hscan, ← scanFrom_nil_token] at hrun
    refine hnext _ (fun hin => ?_) es hrun
    exact (List.mem_append.1 hin).elim (fun h => absurd h (by decide)) (hparens _)

/-- An unclosed token in the right place is closed by a quote, and the rest by
parentheses. -/
theorem completable_of_reopens {x : Text} (h : Reopens (Tokenizer.standard.scan x)) :
    standard.Completable x := by
  obtain ⟨before, t, behind, gaps, r, hx, hunclosed, hbefore, htakes⟩ := h
  obtain ⟨literal, s, hliteral, hscan⟩ := scan_reopened []
    (List.replicate (openLists r.frames) (byte ')')) hx hunclosed (closing?_quote _)
  obtain ⟨closings, hclosings, hlength, hkinds⟩ :=
    scanFrom_closings literal.span.stop (openLists r.frames)
  obtain ⟨es, hrun⟩ := run_atom_closings false htakes hliteral hkinds hlength
  rw [hclosings] at hscan
  refine completable_of_run _ es
    ((congrArg (fun items => (run false items .start).2) hscan).trans ?_)
  rw [run_append_of_ok hbefore, hrun]

/-- Where no quote stands no token is unclosed. -/
theorem not_reopens {x : Text} (h : byte '"' ∉ x) : ¬ Reopens (Tokenizer.standard.scan x) := by
  rintro ⟨before, t, behind, _, _, hx, hunclosed, _⟩
  obtain ⟨w₁, w₂, hw, _, hne, hhere⟩ := (hx ▸ Scans.scan x).split
  exact h (hw ▸ List.mem_append_right w₁ (List.mem_append_left w₂
    (quote_mem_of_isUnclosed hhere hunclosed)))

/-- **What the mark of a syntax error is worth.** More input mends a text that cannot be read if
and only if the error is marked and what is open can be closed, or an unclosed token stands
where a literal may stand. So every marked error of a text without dots can be mended, and no
other error of a text without quotes. -/
theorem completable_iff {x : Text} {gaps : List Gap} {err : SyntaxError}
    (h : standard.readAll x = (gaps, .error err)) :
    (standard.Completable x ↔
      (err.incomplete = true ∧ EndsClosable (Tokenizer.standard.scan x)) ∨
        Reopens (Tokenizer.standard.scan x)) ∧
    ((∀ t, .token t ∈ Tokenizer.standard.scan x → t.kind ≠ .dot) → err.incomplete = true →
      standard.Completable x) ∧
    (byte '"' ∉ x → standard.Completable x → err.incomplete = true) := by
  change run false (Tokenizer.standard.scan x) .start = (gaps, .error err) at h
  have hmarked : EndsClosable (Tokenizer.standard.scan x) → err.incomplete = true := by
    rintro ⟨gaps', r, hadvance, _⟩
    rcases run_eq_error_iff.1 h with ⟨_, herror⟩ | ⟨hinc, _⟩
    · exact nomatch congrArg Prod.snd (herror.symm.trans hadvance)
    · exact hinc
  refine ⟨⟨fun hc => ?_, fun hc => ?_⟩, fun hdots hinc => ?_, fun hq hc => ?_⟩
  · exact (cases_of_completable hc).imp_left fun hends => ⟨hmarked hends, hends⟩
  · exact hc.elim (fun hends => completable_of_endsClosable hends.2) completable_of_reopens
  · exact completable_of_endsClosable (endsClosable_of_dotless h hinc hdots)
  · exact hmarked ((cases_of_completable hc).resolve_right (not_reopens hq))

/-- **The mark is wrong in both directions.** The input `(. .` is marked although no line mends
it, since the list has two dots. The input `" )` is not marked although a quote mends it. -/
theorem completable_iff_two_dots :
    (∃ err, standard.readAll "(. ." = ([], .error err) ∧ err.incomplete = true ∧
      ¬ standard.Completable "(. .") ∧
    ∃ err, standard.readAll "\" )" = ([], .error err) ∧ err.incomplete = false ∧
      standard.Completable "\" )" := by
  constructor
  · have hread : standard.readAll "(. ." = ([], .error _) := rfl
    refine ⟨_, hread, rfl, (completable_iff hread).1.not.2 ?_⟩
    rintro (⟨_, gaps, r, hadvance, hclosable⟩ | hreopens)
    · have hend : advance false (Tokenizer.standard.scan "(. .") .start =
          ([], .ok ⟨[.list 0 [.dot, .dot]], [], 4⟩) := rfl
      cases hend.symm.trans hadvance
      exact absurd hclosable (by decide)
    · exact not_reopens (by decide) hreopens
  · have hread : standard.readAll "\" )" = ([], .error _) := rfl
    exact ⟨_, hread, rfl, (completable_iff hread).1.2 (Or.inr
      ⟨[], ⟨.symbol, "\"", ⟨0, 1⟩⟩, _, [], .start, rfl, rfl, rfl,
        fun _ hf => absurd hf List.not_mem_nil⟩)⟩

end Reader

end PassingStyle
