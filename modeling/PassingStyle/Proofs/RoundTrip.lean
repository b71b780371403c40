import PassingStyle.Proofs.Cuts
import PassingStyle.Proofs.Numeral
import PassingStyle.Proofs.Outcome
import PassingStyle.Script

/-!
# What is printed reads back

An expression that a reader has made is printed as a text that reads back as the
same expression, whatever text it came from, broken ones included, and although
the printed text has other blanks, no dots, no gaps and no quoting marks.

Not every expression has that property. A symbol may contain blanks or
parentheses, or be spelled like a number, and a string literal may contain
quotes. `Legible` tells the expressions that have it: their atoms are spelled
like tokens. Since an opening quote is part of a symbol only if no quote follows,
legibility depends on what is printed later, of which just one thing matters:
whether it has a quote. That is the parameter `later`, which grows from right to
left through a list.

The proof has two halves. The machine that reads keeps the invariant that what it
holds is legible as far as quotes are left in its input, so what it makes is
legible; and what is legible reads back, in front of every text that does not go
on with a word.
-/

namespace PassingStyle

open Text Lexeme Tokenizer

/-! ## Legible expressions -/

namespace Sexp

mutual

/-- **An expression that can be printed** and read back, with a quote printed
later only if `later` says so. -/
def Legible (later : Prop) : Sexp → Prop
  | symbol s => Spelled .symbol s later
  | str s => Spelled .string (byte '"' :: s ++ [byte '"']) later
  | number x => ∃ n, Format.double.round? false n 1 = some x
  | bool _ | nil => True
  | absent | dot => False
  | list xs => LegibleList later xs

/-- A list of expressions that can be printed one after the other. -/
def LegibleList (later : Prop) : List Sexp → Prop
  | [] => True
  | x :: xs => Legible (later ∨ byte '"' ∈ printList xs) x ∧ LegibleList later xs

end

/-- Where the quotes of a printed list come from. -/
theorem quote_mem_printList {xs : List Sexp} :
    byte '"' ∈ printList xs ↔ ∃ x ∈ xs, byte '"' ∈ x.print := by
  have hblank : byte '"' ≠ byte ' ' := by decide
  induction xs with
  | nil => simp [printList]
  | cons x xs ih =>
    cases xs with
    | nil => simp [printList]
    | cons y xs => simp [printList, hblank, ih]

/-- Parentheses are no quotes. -/
theorem quote_mem_print_list {xs : List Sexp} :
    byte '"' ∈ (list xs).print ↔ byte '"' ∈ printList xs := by
  have hopen : byte '"' ≠ byte '(' := by decide
  have hclose : byte '"' ≠ byte ')' := by decide
  simp [print, hopen, hclose]

mutual

/-- Legibility asks for less where fewer quotes follow. -/
theorem Legible.anti {later later' : Prop} (hl : later' → later) :
    ∀ {e : Sexp}, Legible later e → Legible later' e
  | symbol _, h => Spelled.anti h hl
  | str _, h => Spelled.anti h hl
  | number _, h => h
  | bool _, h => h
  | nil, h => h
  | list _, h => LegibleList.anti hl h

/-- Legibility asks for less where fewer quotes follow, for lists. -/
theorem LegibleList.anti {later later' : Prop} (hl : later' → later) :
    ∀ {xs : List Sexp}, LegibleList later xs → LegibleList later' xs
  | [], _ => trivial
  | _ :: _, ⟨hx, hxs⟩ => ⟨hx.anti (Or.imp_left hl), hxs.anti hl⟩

end

/-- **Two lists one after the other**: what the second one prints follows the
first. -/
theorem legibleList_append {later : Prop} {xs ys : List Sexp} :
    LegibleList later (xs ++ ys) ↔
      LegibleList (later ∨ byte '"' ∈ printList ys) xs ∧ LegibleList later ys := by
  induction xs with
  | nil => simp [LegibleList]
  | cons x xs ih =>
    have hquote : byte '"' ∈ printList (xs ++ ys) ↔
        byte '"' ∈ printList ys ∨ byte '"' ∈ printList xs := by
      simp only [quote_mem_printList, List.mem_append]
      grind
    simp only [List.cons_append, LegibleList, ih, hquote, or_assoc, and_assoc]

/-- Elements may be left out. -/
theorem LegibleList.sublist {later : Prop} {xs ys : List Sexp} (h : xs.Sublist ys)
    (hys : LegibleList later ys) : LegibleList later xs := by
  induction h with
  | slnil => exact hys
  | cons y _ ih => exact ih hys.2
  | @cons_cons xs ys x hsub ih =>
    refine ⟨hys.1.anti (Or.imp_right fun h => ?_), ih hys.2⟩
    obtain ⟨y, hy, hq⟩ := quote_mem_printList.1 h
    exact quote_mem_printList.2 ⟨y, hsub.subset hy, hq⟩

end Sexp

/-! ## What the reader makes is legible -/

namespace Reading

open Sexp

/-- The dots of a list disappear, and at most the last element with them. -/
theorem resolveDots?_sublist {items elements : List Sexp}
    (h : resolveDots? items = some elements) :
    elements.Sublist (items.filter (· ≠ .dot)) := by
  fun_induction resolveDots? items generalizing elements with
  | case1 => cases h; exact List.Sublist.refl _
  | case2 | case3 | case6 => exact nomatch h
  | case4 => cases h; exact List.nil_sublist _
  | case5 e hdot _ =>
    cases h
    simp [show e ≠ .dot from hdot]
  | case7 e rest h0 _ _ h1 h2 ih =>
    -- After a dot come no element, one, or more; all these are other cases.
    have hdot : e ≠ .dot := by
      intro he
      match rest, h0 he, h1, h2 with
      | [x], _, h1, _ => exact h1 x he rfl
      | x :: y :: rest, _, _, h2 => exact h2 x y rest he rfl
    obtain ⟨tail, htail, rfl⟩ := Option.map_eq_some_iff.1 h
    rw [List.filter_cons_of_pos (by simpa using hdot)]
    exact (ih htail).cons_cons e

/-- Without dots there is nothing to resolve. -/
theorem resolveDots?_of_not_mem {items : List Sexp} (h : .dot ∉ items) :
    resolveDots? items = some items := by
  fun_induction resolveDots? items with
  | case1 => rfl
  | case2 | case3 | case4 | case5 | case6 => simp at h
  | case7 e rest _ _ _ _ _ ih =>
    rw [ih fun hmem => h (List.mem_cons_of_mem e hmem)]
    rfl

/-- **What the machine holds** in its open lists, from the first to the last. -/
def pending : List Frame → List Sexp
  | [] => []
  | .list _ items :: frames => pending frames ++ items.reverse.filter (· ≠ .dot)
  | .quote :: frames => pending frames

/-- **The invariant**: everything held is legible in front of a text that has a
quote if `later` says so, and everything complete is legible on its own. -/
structure Sound (later : Prop) (r : Reading) : Prop where
  /-- What open lists hold. -/
  held : LegibleList later (pending r.frames)
  /-- What is complete. -/
  done : ∀ e ∈ r.done, Legible False e

/-- The expression that a quoting mark makes is legible. -/
theorem legible_quoteForm {later : Prop} {e : Sexp} (h : Legible later e) :
    Legible later (quoteForm e) := by
  have hquote : ∀ later, Spelled .symbol (Text.ofString "quote") later := fun _ =>
    ⟨by decide, Text.ofString " \"", fun _ => by decide, by rfl⟩
  refine ⟨hquote _, h.anti fun hl => ?_, trivial⟩
  simpa [printList] using hl

/-- A complete expression keeps the invariant, wherever it goes. -/
theorem deliver_sound {later : Prop} {e : Sexp} {frames : List Frame} {done : List Sexp}
    (hheld : LegibleList (later ∨ byte '"' ∈ e.print) (pending frames)) (he : Legible later e)
    (hdone : ∀ x ∈ done, Legible False x) :
    LegibleList later (pending (deliver e frames done).1) ∧
      ∀ x ∈ (deliver e frames done).2, Legible False x := by
  induction frames generalizing e with
  | nil =>
    refine ⟨trivial, ?_⟩
    intro x hx
    rcases List.mem_cons.1 hx with rfl | hx
    · exact he.anti False.elim
    · exact hdone x hx
  | cons f frames ih =>
    cases f with
    | quote =>
      refine ih (hheld.anti (Or.imp_right fun hq => ?_)) (legible_quoteForm he)
      rw [quoteForm, quote_mem_print_list, quote_mem_printList] at hq
      obtain ⟨x, hx, hq⟩ := hq
      rcases List.mem_pair.1 hx with rfl | rfl
      · exact absurd hq (by decide)
      · exact hq
    | list start items =>
      refine ⟨?_, hdone⟩
      have hdot : e ≠ .dot := by
        rintro rfl
        exact he
      have hone : LegibleList later [e] := ⟨he.anti (by simp [printList]), trivial⟩
      have happend : pending (deliver e (.list start items :: frames) done).1
          = pending (.list start items :: frames) ++ [e] := by
        simp [deliver, pending, hdot]
      rw [happend, legibleList_append]
      exact ⟨hheld, hone⟩

/-- The state after a complete expression keeps the invariant. -/
theorem Sound.complete {later : Prop} {r : Reading} {e : Sexp}
    (hr : r.Sound (later ∨ byte '"' ∈ e.print)) (he : Legible later e) :
    (r.complete e).Sound later := by
  obtain ⟨hheld, hdone⟩ := deliver_sound hr.held he hr.done
  exact ⟨hheld, hdone⟩

/-- The invariant asks for less where fewer quotes follow. -/
theorem Sound.anti {later later' : Prop} {r : Reading} (hr : r.Sound later)
    (hl : later' → later) : r.Sound later' :=
  ⟨hr.held.anti hl, hr.done⟩

/-- The closing parenthesis of a list keeps the invariant. -/
theorem Sound.close {later : Prop} {frames : List Frame} {done items elements : List Sexp}
    {start stop stop' : Nat} (hr : Sound later ⟨.list start items :: frames, done, stop⟩)
    (h : resolveDots? items.reverse = some elements) :
    (Reading.complete ⟨frames, done, stop'⟩ (.list elements)).Sound later := by
  have hsub := resolveDots?_sublist h
  obtain ⟨hframes, hitems⟩ := legibleList_append.1 hr.held
  refine Sound.complete ⟨hframes.anti (Or.imp_right fun hq => ?_), hr.done⟩ (hitems.sublist hsub)
  rw [quote_mem_print_list, quote_mem_printList] at hq
  obtain ⟨x, hx, hq⟩ := hq
  exact quote_mem_printList.2 ⟨x, hsub.subset hx, hq⟩

/-- What stands between the two quotes of a string literal. -/
theorem content?_quoted (b c : UInt8) (content : Text) :
    content? (b :: content ++ [c]) = some content := by
  cases content with
  | nil => rfl
  | cons d content =>
    rw [List.cons_append, List.cons_append, content?, ← List.cons_append, List.dropLast_concat]

/-- **One token keeps the invariant**, where `rest` is the text after it. -/
theorem Sound.step {r r' : Reading} {k : TokenKind} {w rest : Text} {span : Span}
    (hr : r.Sound (byte '"' ∈ w ++ rest)) (hne : w ≠ [])
    (hhere : standard.here? (w ++ rest) = some (k, w.length))
    (h : r.step ⟨k, w, span⟩ = .ok r') : r'.Sound (byte '"' ∈ rest) := by
  have hrest : byte '"' ∈ rest → byte '"' ∈ w ++ rest := fun h => List.mem_append_right w h
  have hspelled : Spelled k w (byte '"' ∈ rest) := ⟨hne, rest, id, hhere⟩
  have hcomplete : ∀ e, (byte '"' ∈ e.print → byte '"' ∈ w) → Legible (byte '"' ∈ rest) e →
      (Reading.complete { r with stop := span.stop } e).Sound (byte '"' ∈ rest) := by
    intro e hprint he
    refine Sound.complete ⟨hr.held.anti ?_, hr.done⟩ he
    rintro (hq | hq)
    · exact hrest hq
    · exact List.mem_append_left rest (hprint hq)
  unfold Reading.step at h
  cases k with
  | nil => cases h; exact hcomplete .nil (fun hq => absurd hq (by decide)) trivial
  | true => cases h; exact hcomplete (.bool true) (fun hq => absurd hq (by decide)) trivial
  | false => cases h; exact hcomplete (.bool false) (fun hq => absurd hq (by decide)) trivial
  | symbol => cases h; exact hcomplete (.symbol w) id hspelled
  | number =>
    simp only at h
    split at h
    · rename_i x hx
      cases h
      have hdigits : ∀ b ∈ w, isDigit b = true := run?_mem (here?_standard_iff.1 hhere).1
      have hround := (Literal.fraction_of_digits_eq_ok_iff hne hdigits).1 hx
      refine hcomplete (.number x) (fun hq => ?_) ⟨_, hround⟩
      exact absurd ((Number.print_of_round? hround).2.1 _ hq) (by decide)
    · exact nomatch h
  | string =>
    obtain ⟨content, rfl, -⟩ := eq_quoted_of_here? hhere
    simp only [content?_quoted] at h
    cases h
    exact hcomplete (.str content) id hspelled
  | quote => cases h; exact ⟨hr.held.anti hrest, hr.done⟩
  | lparen =>
    cases h
    refine ⟨?_, hr.done⟩
    simpa [pending] using hr.held.anti hrest
  | rparen =>
    obtain ⟨frames, done, stop⟩ := r
    match frames, hr, h with
    | .list start items :: frames, hr, h =>
      simp only at h
      split at h
      · rename_i elements helements
        cases h
        exact Sound.close (hr.anti hrest) helements
      · exact nomatch h
  | dot =>
    obtain ⟨frames, done, stop⟩ := r
    match frames, hr, h with
    | .list start items :: frames, hr, h =>
      cases h
      refine ⟨?_, hr.done⟩
      simpa [pending] using hr.held.anti hrest
  | whitespace | other => exact nomatch h

/-- A gap does not change what is read. -/
theorem run_gap {strict : Bool} {g : Gap} {items : List Item} {r : Reading} {gaps : List Gap}
    {es : List Sexp} (h : run strict (.gap g :: items) r = (gaps, .ok es)) :
    ∃ gaps', run strict items r = (gaps', .ok es) := by
  cases strict with
  | true => exact absurd (congrArg Prod.snd h) (by simp [run])
  | false =>
    have hresult : (run false items r).2 = .ok es := congrArg Prod.snd h
    exact ⟨(run false items r).1, Prod.ext rfl hresult⟩

/-- At the end of the input, what was complete is the result. -/
theorem Sound.of_finish {later : Prop} {strict : Bool} {r : Reading} {gaps : List Gap}
    {es : List Sexp} (hr : r.Sound later) (h : Reading.run strict [] r = (gaps, .ok es)) :
    ∀ e ∈ es, Legible False e := by
  have hfinish : r.finish = .ok es := congrArg Prod.snd h
  unfold finish at hfinish
  split at hfinish
  · cases hfinish
    exact fun e he => hr.done e (List.mem_reverse.1 he)
  · exact nomatch hfinish
  · exact nomatch hfinish

/-- **Everything that a reader makes is legible**, piece by piece. -/
theorem Sound.run_cuts {strict : Bool} {pos : Nat} {text : Text} {items : List Item} {r : Reading}
    {gaps : List Gap} {es : List Sexp} (hcuts : standard.Cuts pos text items)
    (hr : r.Sound (byte '"' ∈ text))
    (h : Reading.run strict (items.filter standard.reports) r = (gaps, .ok es)) :
    ∀ e ∈ es, Legible False e := by
  induction hcuts generalizing r gaps with
  | nil => exact hr.of_finish h
  | @cons pos item rest items hne hspan hexplains _ ih =>
    have hrest : r.Sound (byte '"' ∈ rest) := hr.anti (List.mem_append_right item.text)
    cases item with
    | gap g =>
      obtain ⟨gaps', h⟩ := run_gap h
      exact ih hrest h
    | token t =>
      obtain ⟨k, w, span⟩ := t
      obtain rfl : span = ⟨pos, pos + w.length⟩ := hspan
      by_cases hk : k = .whitespace
      · subst hk
        exact ih hrest h
      · have hreports : standard.reports (.token ⟨k, w, ⟨pos, pos + w.length⟩⟩) = true := by
          simp [reports, standard, hk]
        rw [List.filter_cons_of_pos hreports, Reading.run] at h
        cases hstep : r.step ⟨k, w, ⟨pos, pos + w.length⟩⟩ with
        | error err =>
          rw [hstep] at h
          cases h
        | ok r' =>
          rw [hstep] at h
          exact ih (hr.step hne hexplains hstep) h

/-- **Everything that a reader makes is legible.** -/
theorem Sound.run {strict : Bool} {pos : Nat} {text : Text} {r : Reading} {gaps : List Gap}
    {es : List Sexp} (hr : r.Sound (byte '"' ∈ text))
    (h : run strict (standard.scanFrom pos 0 text) r = (gaps, .ok es)) :
    ∀ e ∈ es, Legible False e := by
  obtain ⟨items, hcuts⟩ := standard.exists_cuts pos text
  rw [hcuts.scanFrom_eq] at h
  exact hr.run_cuts hcuts h

/-! ## What is legible reads back -/

/-- A token goes to the machine, and the scan goes on after it. -/
theorem run_token {strict : Bool} {pos : Nat} {w rest : Text} {k : TokenKind} {r r' : Reading}
    (hne : w ≠ []) (hhere : standard.here? (w ++ rest) = some (k, w.length))
    (hk : k ≠ .whitespace) (h : r.step ⟨k, w, ⟨pos, pos + w.length⟩⟩ = .ok r') :
    run strict (standard.scanFrom pos 0 (w ++ rest)) r
      = run strict (standard.scanFrom (pos + w.length) 0 rest) r' := by
  rw [scanFrom_token hne hhere (by simpa [standard] using hk), run, h]

/-- Words end before a blank and before a parenthesis. -/
theorem delimited_cons {b : UInt8} {t : Text} (hb : isWordByte b = false) :
    Delimited (b :: t) := by
  rintro c ⟨⟩
  exact hb

/-- An expression that is complete inside of a list is its last element so far. -/
theorem complete_list (start : Nat) (items : List Sexp) (frames : List Frame) (done : List Sexp)
    (stop : Nat) (e : Sexp) : complete ⟨.list start items :: frames, done, stop⟩ e
      = ⟨.list start (e :: items) :: frames, done, stop⟩ := rfl

/-- No dot comes into a list that is read back. -/
theorem dot_not_mem_cons {later : Prop} {x : Sexp} {xs items : List Sexp}
    (h : LegibleList later (x :: xs)) (hdot : .dot ∉ items) : .dot ∉ x :: items := by
  rw [List.mem_cons]
  rintro (rfl | hmem)
  · exact h.1
  · exact hdot hmem

mutual

/-- **A legible expression reads back** in front of a text that no word goes on
with. -/
theorem run_print (strict : Bool) {later : Prop} : ∀ {e : Sexp} {rest : Text} {pos : Nat}
    {r : Reading}, Legible later e → Delimited rest → (byte '"' ∈ rest → later) →
    run strict (standard.scanFrom pos 0 (e.print ++ rest)) r
      = run strict (standard.scanFrom (pos + e.print.length) 0 rest)
        ({ r with stop := pos + e.print.length }.complete e)
  | .symbol s, _, _, _, h, hd, hq => run_token h.1 (h.here? (.inl rfl) hd hq) (by decide) rfl
  | .str s, _, _, _, h, hd, hq => by
    rw [print]
    refine run_token h.1 (h.here? (.inr rfl) hd hq) (by decide) ?_
    simp only [step, content?_quoted]
  | .number x, _, _, _, ⟨n, hn⟩, hd, _ => by
    obtain ⟨hne, hdigits, hround⟩ := Number.print_of_round? hn
    rw [print]
    refine run_token hne (here?_number hne hdigits hd) (by decide) ?_
    simp only [step, (Literal.fraction_of_digits_eq_ok_iff hne hdigits).2 hround]
  | .bool true, _, _, _, _, _, _ => run_token (by decide) (by rfl) (by decide) rfl
  | .bool false, _, _, _, _, _, _ => run_token (by decide) (by rfl) (by decide) rfl
  | .nil, _, _, _, _, _, _ => run_token (by decide) (by rfl) (by decide) rfl
  | .list xs, rest, pos, r, h, _, hq => by
    have hopen : print (.list xs) ++ rest
        = [byte '('] ++ (printList xs ++ byte ')' :: rest) := by
      simp [print]
    have hlength : pos + (print (.list xs)).length
        = pos + [byte '('].length + (printList xs).length + 1 := by
      simp [print]
      omega
    rw [hopen, run_token (by decide) (by rfl) (by decide) rfl, hlength]
    exact run_printList strict xs h List.not_mem_nil hq

/-- The elements of a list read back up to its closing parenthesis. -/
theorem run_printList (strict : Bool) {later : Prop} : ∀ (xs : List Sexp) {rest : Text}
    {pos start stop : Nat} {items done : List Sexp} {frames : List Frame},
    LegibleList later xs → .dot ∉ items → (byte '"' ∈ rest → later) →
    run strict (standard.scanFrom pos 0 (printList xs ++ byte ')' :: rest))
        ⟨.list start items :: frames, done, stop⟩
      = run strict (standard.scanFrom (pos + (printList xs).length + 1) 0 rest)
        (complete ⟨frames, done, pos + (printList xs).length + 1⟩ (.list (items.reverse ++ xs)))
  | [], rest, pos, start, stop, items, done, frames, _, hdot, _ => by
    have hitems : resolveDots? items.reverse = some items.reverse :=
      resolveDots?_of_not_mem (by simpa using hdot)
    refine run_token (w := [byte ')']) (k := .rparen) (by decide) (by rfl) (by decide) ?_
    simp [step, hitems, printList]
  | [x], rest, pos, start, stop, items, done, frames, h, hdot, hq => by
    have hclose : byte '"' ∈ byte ')' :: rest → later ∨ byte '"' ∈ printList [] := by
      intro hmem
      exact .inl (hq (List.mem_of_ne_of_mem (by decide) hmem))
    rw [printList, run_print strict h.1 (delimited_cons (by decide)) hclose, complete_list]
    show run strict (standard.scanFrom _ 0 (printList [] ++ byte ')' :: rest)) _ = _
    rw [run_printList strict [] trivial (dot_not_mem_cons h hdot) hq]
    simp [printList]
  | x :: y :: xs, rest, pos, start, stop, items, done, frames, h, hdot, hq => by
    have hmore : byte '"' ∈ byte ' ' :: (printList (y :: xs) ++ byte ')' :: rest) →
        later ∨ byte '"' ∈ printList (y :: xs) := by
      intro hmem
      rcases List.mem_append.1 (List.mem_of_ne_of_mem (by decide) hmem) with hmem | hmem
      · exact .inr hmem
      · exact .inl (hq (List.mem_of_ne_of_mem (by decide) hmem))
    have hsplit : printList (x :: y :: xs) ++ byte ')' :: rest
        = print x ++ byte ' ' :: (printList (y :: xs) ++ byte ')' :: rest) := by
      simp [printList]
    have hlength : pos + (printList (x :: y :: xs)).length
        = pos + (print x).length + 1 + (printList (y :: xs)).length := by
      simp only [printList, List.length_append, List.length_cons]
      omega
    rw [hsplit, run_print strict h.1 (delimited_cons (by decide)) hmore,
      scanFrom_blank _ (by decide), hlength, complete_list,
      run_printList strict (y :: xs) h.2 (dot_not_mem_cons h hdot) hq]
    simp

end

end Reading

namespace Sexp

mutual

/-- A legible expression equals itself, which not every expression does. -/
theorem Legible.equal_self {later : Prop} : ∀ {e : Sexp}, Legible later e → e.equal e = true
  | symbol _, _ => by simp [equal]
  | str _, _ => by simp [equal]
  | number _, ⟨_, hn⟩ => Number.same_of_round? hn
  | bool _, _ => by simp [equal]
  | nil, _ => rfl
  | list _, h => LegibleList.equalList_self h

/-- A legible list equals itself. -/
theorem LegibleList.equalList_self {later : Prop} :
    ∀ {xs : List Sexp}, LegibleList later xs → equalList xs xs = true
  | [], _ => rfl
  | _ :: _, ⟨hx, hxs⟩ => by rw [equalList, hx.equal_self, hxs.equalList_self]; rfl

end

end Sexp

/-! ## Readers -/

namespace Reader

variable {r : Reader} {e : Sexp}

/-- A legible expression reads back, whether or not the reader is strict. -/
theorem readAll_print (ht : r.tokenizer = .standard) (he : e.Legible False) :
    r.readAll e.print = ([], .ok [e]) := by
  have hrun : Reading.run r.strict (Tokenizer.standard.scanFrom 0 0 (e.print ++ [])) .start = _ :=
    Reading.run_print r.strict he (by rintro b ⟨⟩) (by simp)
  rw [List.append_nil] at hrun
  unfold readAll readCut scan
  rw [ht, hrun]
  rfl

/-- **The expressions of a text are legible**, whether or not the reader is strict. -/
theorem legible_of_readAll {text : Text} {gaps : List Gap} {es : List Sexp}
    (ht : r.tokenizer = .standard) (h : r.readAll text = (gaps, .ok es)) :
    ∀ e ∈ es, e.Legible False := by
  have hstart : Reading.start.Sound (byte '"' ∈ text) := ⟨trivial, by simp [Reading.start]⟩
  unfold readAll readCut scan at h
  rw [ht] at h
  exact hstart.run h

/-- **The first expression of a text is legible**, whether or not the reader is
strict. -/
theorem legible_of_read {text : Text} {gaps : List Gap} (ht : r.tokenizer = .standard)
    (h : r.read text = (gaps, .ok e)) : e.Legible False := by
  unfold read at h
  rcases hall : r.readAll text with ⟨gaps', _ | es⟩
  · rw [hall] at h
    exact nomatch congrArg Prod.snd h
  · rw [hall] at h
    cases es with
    | nil => exact nomatch congrArg Prod.snd h
    | cons e' es =>
      cases h
      exact legible_of_readAll ht hall e List.mem_cons_self

/-- What is printed has the expression as its first one. -/
theorem read_print (ht : r.tokenizer = .standard) (he : e.Legible False) :
    r.read e.print = ([], .ok e) := by
  unfold read
  rw [readAll_print ht he]
  rfl

end Reader

/-! ## Normalizing -/

namespace Compiler

/-- What a compiler reads is what its reader reads. -/
theorem outcome_read (text : Text) (c : Compiler) :
    (outcome (read text) c).1 = (c.reader.read text).2.mapError .unreadable :=
  congrArg Prod.fst (outcome_endReading (c.reader.read text).1 _ c)

end Compiler

namespace Runner

variable {ε α β : Type}

/-- **The outcome of work** from the state `r` of what runs scripts: the answer, and the state
afterwards. -/
def outcome (action : ExceptT ε (StateM Runner) α) (r : Runner) : Except ε α × Runner :=
  StateT.run (ExceptT.run action) r

/-- **The answer of work** in the state `r` of what runs scripts. -/
def answer (action : ExceptT ε (StateM Runner) α) (r : Runner) : Except ε α :=
  (outcome action r).1

/-- Two steps: the second one starts where the first one ended, unless that has failed. -/
theorem outcome_bind (x : ExceptT ε (StateM Runner) α) (k : α → ExceptT ε (StateM Runner) β)
    (r : Runner) : outcome (x >>= k) r = match outcome x r with
      | (.ok a, r₁) => outcome (k a) r₁
      | (.error e, r₁) => (.error e, r₁) := by
  unfold outcome
  rw [ExceptT.run_bind, StateT.run_bind]
  rcases StateT.run (ExceptT.run x) r with ⟨_ | a, r₁⟩ <;> rfl

/-- Work of the compiler changes nothing but the compiler. -/
theorem outcome_working (action : Compile α) (r : Runner) :
    outcome (working action) r = ((Compiler.outcome action r.compiler).1,
      { r with compiler := (Compiler.outcome action r.compiler).2 }) :=
  rfl

/-- **The answer of normalizing**: the first expression as it is printed. -/
theorem answer_normalize (text : Text) (r : Runner) :
    answer (normalize text) r
      = ((r.compiler.reader.read text).2.map Sexp.print).mapError .unreadable := by
  unfold answer normalize
  rw [outcome_bind, outcome_working, Compiler.outcome_read]
  cases (r.compiler.reader.read text).2 <;> rfl

/-- **What is normalized is its own normal form**, for every compiler. -/
theorem normalize_again {text p : Text} {r : Runner} (h : answer (normalize text) r = .ok p)
    (r' : Runner) : answer (normalize p) r' = .ok p := by
  rw [answer_normalize] at h ⊢
  rcases hread : r.compiler.reader.read text with ⟨gaps, err | e⟩
  · rw [hread] at h
    cases h
  · rw [hread] at h
    cases h
    rw [Reader.read_print rfl (Reader.legible_of_read rfl hread)]
    rfl

end Runner

namespace ScriptLanguage

/-- **A language presents answers** in some way: a function on texts that has become a function of
scripts is called with the string that the script gives it, and the script sees a value that depends
on the answer only. -/
def Presents (L : ScriptLanguage) (present : Except Failure Text → Except ScriptError Value) :
    Prop :=
  ∀ (name : Text) (f : Text → Running Text) (text : Text),
    L.makeFunction name f [.string text] []
      = ExceptT.lift (ExceptT.run (f text)) >>= fun answer => ExceptT.mk (pure (present answer))

variable {L : ScriptLanguage} {present : Except Failure Text → Except ScriptError Value}

/-- What a script sees of normalizing is what it is presented with. -/
theorem Presents.answer_normalize (h : L.Presents present) (text : Text) (r : Runner) :
    Runner.answer (L.normalize [.string text] []) r
      = present (Runner.answer (Runner.normalize text) r) := by
  unfold normalize
  rw [h]
  rfl

end ScriptLanguage

/-- **Reading, printing and reading again.** An expression that was read from any text
is printed as a text without gaps, which reads as that expression alone; and so
normalizing is idempotent, for every compiler and whatever happens in between. In
whatever way a script language presents answers, a script sees of the normal form what
it sees of the text. So for a script normalizing is idempotent as well if its language
presents a text as that string. -/
theorem read_print_read (text : Text) :
    (∀ gaps e, Reader.standard.read text = (gaps, .ok e) →
      ∃ e', Reader.standard.readAll e.print = ([], .ok [e']) ∧ e.equal e' = true) ∧
    ∀ p r, Runner.answer (Runner.normalize text) r = .ok p →
      (∀ r', Runner.answer (Runner.normalize p) r' = .ok p) ∧
      ∀ (L : ScriptLanguage) present, L.Presents present →
        Runner.answer (L.normalize [.string text] []) r = present (.ok p) ∧
          ∀ r', Runner.answer (L.normalize [.string p] []) r' = present (.ok p) := by
  refine ⟨?_, fun p r h => ⟨Runner.normalize_again h, fun L present hL => ?_⟩⟩
  · intro gaps e h
    have he := Reader.legible_of_read rfl h
    exact ⟨e, Reader.readAll_print rfl he, he.equal_self⟩
  · refine ⟨by rw [hL.answer_normalize, h], fun r' => ?_⟩
    rw [hL.answer_normalize, Runner.normalize_again h r']

/-- The language of scripts shows a pair. -/
theorem Script.language_presents :
    Script.language.Presents fun answer => .ok (Runner.presented answer) :=
  fun _ _ _ => rfl

/-- A text with a byte that starts no token, words that are cut in two, a dot, a quoting
mark and a string literal whose last quote a backslash comes before. It is normalized, and its
normal form again. -/
theorem read_print_read_broken_text :
    (∃ gaps e, Reader.standard.read (ofString "(12ab" ++ [0xff] ++ ofString "'(nilly . \"c\\\"))")
        = (gaps, .ok e) ∧ e.print = ofString "(12 ab (quote ('() ly \"c\\\")))" ∧
      ∃ e', Reader.standard.readAll e.print = ([], .ok [e']) ∧ e.equal e' = true) ∧
    ∃ p, Runner.answer (Runner.normalize
        (ofString "(12ab" ++ [0xff] ++ ofString "'(nilly . \"c\\\"))")) {} = .ok p ∧
      Runner.answer (Runner.normalize p) {} = .ok p ∧
      Runner.answer (Script.language.normalize [.string p] []) {}
        = .ok (.tuple [.string p, .hole]) := by
  -- The tree is given explicitly, so that only this step has to compute what is read.
  have hread : (Reader.standard.read
      (ofString "(12ab" ++ [0xff] ++ ofString "'(nilly . \"c\\\"))")).2.toOption
        = some (.list [.number (.finite false 6755399441055744 (-49)), .ofName "ab",
          .list [.ofName "quote", .list [.nil, .ofName "ly", .str (ofString "c\\")]]]) := by
    decide +kernel
  have hback : ∀ {text : Text} {e : Sexp}, (Reader.standard.read text).2.toOption = some e →
      (∃ gaps, Reader.standard.read text = (gaps, .ok e) ∧
        ∃ e', Reader.standard.readAll e.print = ([], .ok [e']) ∧ e.equal e' = true) ∧
      Runner.answer (Runner.normalize text) {} = .ok e.print := by
    intro text e h
    rcases hpair : Reader.standard.read text with ⟨gaps, _ | x⟩
    · rw [hpair] at h
      exact nomatch h
    · rw [hpair] at h
      cases h
      refine ⟨⟨gaps, rfl, (read_print_read text).1 gaps e hpair⟩, ?_⟩
      have hnormal := Runner.answer_normalize text {}
      rw [show (Compiler.reader {}).read text = _ from hpair] at hnormal
      exact hnormal
  obtain ⟨⟨gaps, hgaps, hagain⟩, hnormal⟩ := hback hread
  obtain ⟨hnormal', hpresented⟩ := (read_print_read _).2 _ _ hnormal
  exact ⟨⟨gaps, _, hgaps, by decide +kernel, hagain⟩, _, hnormal, hnormal' {},
    (hpresented Script.language _ Script.language_presents).2 {}⟩

end PassingStyle
