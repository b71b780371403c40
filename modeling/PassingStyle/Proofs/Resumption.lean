import PassingStyle.Proofs.Derivation

/-!
# Reading goes on where it stopped

The machine that reads expressions looks at one token at a time, so a sequence that continues
another one is read in the state that the first one left behind. What the end of the input adds
is judged by `Reading.finish` alone. `Reading.advance` is reading without that judgement; it
composes, and `Reading.run` is it followed by the judgement.

Three things follow. A sequence that is read completely leaves nothing open, hence what comes
after it is read as if it stood alone. An error that a token causes is never marked incomplete,
and it stops the machine whatever comes later. An error that the end of the input causes is
always marked incomplete. It does not follow that an incomplete input can be completed: dots
are collected like elements, and a list with a dot in the wrong place is rejected only when it is
closed.

## Which states can be completed

An open construct *takes* one more element if it can be closed then: a quoting mark always does,
a list does if no dot stands before its last element. All constructs below the innermost one
have to take what it becomes, and the innermost one has to be closed, either at once or after one
more element. `Reading.completes_iff` shows that nothing else matters, and that one atom and then
closing parentheses complete whatever can be completed at all.
-/

namespace PassingStyle

open Text

namespace Reading

open PassingStyle.Derivation

/-! ## Errors -/

/-- **An error that a token causes is final.** -/
theorem step_final {r : Reading} {t : Token} {err : SyntaxError} (h : r.step t = .error err) :
    err.incomplete = false := by
  unfold step at h
  dsimp only at h
  -- no fault of a token sets the mark
  repeat' split at h
  all_goals cases h
  all_goals rfl

/-- **An error that the end of the input causes is not final.** -/
theorem finish_incomplete {r : Reading} {err : SyntaxError} (h : r.finish = .error err) :
    err.incomplete = true := by
  unfold finish at h
  split at h <;> cases h <;> rfl

/-- The input may end where nothing is open. -/
theorem finish_eq_ok_iff {r : Reading} {es : List Sexp} :
    r.finish = .ok es ↔ r.frames = [] ∧ r.done.reverse = es := by
  unfold finish
  split <;> simp_all

/-! ## Reading without the end -/

/-- **Reading a part of the input**: the gaps that are skipped on the way, and the state
afterwards. -/
def advance (strict : Bool) : List Item → Reading → List Gap × Except SyntaxError Reading
  | [], r => ([], .ok r)
  | .gap g :: rest, r =>
    if strict then ([], .error { fault := .gap g, span := g.span, text := g.text })
    else
      let (gaps, result) := advance strict rest r
      (g :: gaps, result)
  | .token t :: rest, r =>
    match r.step t with
    | .error e => ([], .error e)
    | .ok r => advance strict rest r

/-- **What an input is read as** is decided by the part before its end and then the end. -/
theorem run_append (strict : Bool) (items rest : List Item) (r : Reading) :
    run strict (items ++ rest) r = match advance strict items r with
      | (gaps, .ok r') => (gaps ++ (run strict rest r').1, (run strict rest r').2)
      | (gaps, .error err) => (gaps, .error err) := by
  induction items generalizing r with
  | nil => rfl
  | cons item items ih =>
    cases item with
    | gap g =>
      rw [List.cons_append, run, advance]
      cases strict with
      | true => rfl
      | false =>
        simp only [Bool.false_eq_true, if_false, ih r]
        rcases advance false items r with ⟨gaps, err | r'⟩ <;> rfl
    | token t =>
      rw [List.cons_append, run, advance]
      cases r.step t with
      | error err => rfl
      | ok r' => exact ih r'

/-- An input that continues a part that is read. -/
theorem run_append_of_ok {strict : Bool} {items : List Item} {r r' : Reading} {gaps : List Gap}
    (h : advance strict items r = (gaps, .ok r')) (rest : List Item) :
    run strict (items ++ rest) r = (gaps ++ (run strict rest r').1, (run strict rest r').2) := by
  rw [run_append, h]

/-- **An error in a part of the input** is the error of the input. -/
theorem run_append_of_error {strict : Bool} {items : List Item} {r : Reading} {gaps : List Gap}
    {err : SyntaxError} (h : advance strict items r = (gaps, .error err)) (rest : List Item) :
    run strict (items ++ rest) r = (gaps, .error err) := by
  rw [run_append, h]

/-- A part of an input that is read is read as well. -/
theorem advance_of_run_append {strict : Bool} {items rest : List Item} {r : Reading}
    {gaps : List Gap} {es : List Sexp} (h : run strict (items ++ rest) r = (gaps, .ok es)) :
    ∃ gaps' r', advance strict items r = (gaps', .ok r') ∧
      run strict rest r' = ((run strict rest r').1, .ok es) := by
  rw [run_append] at h
  rcases hadvance : advance strict items r with ⟨gaps', err | r'⟩
  · rw [hadvance] at h
    exact nomatch congrArg Prod.snd h
  · rw [hadvance] at h
    exact ⟨gaps', r', rfl, Prod.ext rfl (congrArg Prod.snd h :)⟩

/-- Reading the whole input is reading it without its end, and then the end. -/
theorem run_eq_advance (strict : Bool) (items : List Item) (r : Reading) :
    run strict items r = match advance strict items r with
      | (gaps, .ok r') => (gaps, r'.finish)
      | (gaps, .error err) => (gaps, .error err) := by
  have h := run_append strict items [] r
  rw [List.append_nil] at h
  rw [h]
  rcases advance strict items r with ⟨gaps, err | r'⟩
  · rfl
  · simp only [run, List.append_nil]

/-- **An error without the end of the input is final.** -/
theorem advance_final {strict : Bool} {items : List Item} {r : Reading} {gaps : List Gap}
    {err : SyntaxError} (h : advance strict items r = (gaps, .error err)) :
    err.incomplete = false := by
  induction items generalizing r gaps with
  | nil => cases h
  | cons item items ih =>
    cases item with
    | gap g =>
      rw [advance] at h
      cases strict with
      | true => cases h; rfl
      | false =>
        simp only [Bool.false_eq_true, if_false] at h
        cases hpart : advance false items r with
        | mk gaps' result =>
          rw [hpart] at h
          cases h
          exact ih hpart
    | token t =>
      rw [advance] at h
      cases hstep : r.step t with
      | error err' =>
        rw [hstep] at h
        cases h
        exact step_final hstep
      | ok r' =>
        rw [hstep] at h
        exact ih h

/-- **A part of the input is accepted**, token by token. -/
inductive Reaches (strict : Bool) : List Item → Reading → List Gap → Reading → Prop
  /-- Nothing is read. -/
  | nil (r : Reading) : Reaches strict [] r [] r
  /-- A gap is skipped. -/
  | gap {g : Gap} {rest : List Item} {r r' : Reading} {gaps : List Gap} (h : strict = false) :
      Reaches strict rest r gaps r' → Reaches strict (.gap g :: rest) r (g :: gaps) r'
  /-- A token is accepted. -/
  | token {t : Token} {rest : List Item} {r r₁ r' : Reading} {gaps : List Gap} :
      r.Accepts t r₁ → Reaches strict rest r₁ gaps r' →
      Reaches strict (.token t :: rest) r gaps r'

/-- **Reading a part of the input**, as a relation. -/
theorem reaches_of_advance {strict : Bool} {items : List Item} {r r' : Reading}
    {gaps : List Gap} (h : advance strict items r = (gaps, .ok r')) :
    Reaches strict items r gaps r' := by
  induction items generalizing r gaps with
  | nil => cases h; exact .nil _
  | cons item items ih =>
    cases item with
    | gap g =>
      rw [advance] at h
      cases strict with
      | true => exact nomatch congrArg Prod.snd h
      | false =>
        simp only [Bool.false_eq_true, if_false, Prod.mk.injEq] at h
        obtain ⟨rfl, hresult⟩ := h
        exact .gap rfl (ih (Prod.ext rfl hresult))
    | token t =>
      rw [advance] at h
      cases hstep : r.step t with
      | error err => rw [hstep] at h; exact nomatch congrArg Prod.snd h
      | ok r₁ =>
        rw [hstep] at h
        exact .token (accepts_of_step hstep) (ih h)

/-- **A failure is final or comes from the end of the input**, and the mark says which. -/
theorem run_eq_error_iff {strict : Bool} {items : List Item} {r : Reading} {gaps : List Gap}
    {err : SyntaxError} : run strict items r = (gaps, .error err) ↔
      (err.incomplete = false ∧ advance strict items r = (gaps, .error err)) ∨
      (err.incomplete = true ∧ ∃ r', advance strict items r = (gaps, .ok r') ∧
        r'.finish = .error err) := by
  rw [run_eq_advance]
  rcases hadvance : advance strict items r with ⟨gaps', err' | r'⟩
  · have hfinal := advance_final hadvance
    constructor
    · intro h
      cases h
      exact Or.inl ⟨hfinal, rfl⟩
    · rintro (⟨_, h⟩ | ⟨_, _, h, _⟩)
      · cases h
        rfl
      · exact nomatch congrArg Prod.snd h
  · dsimp only
    constructor
    · intro h
      obtain ⟨rfl, hfinish⟩ := Prod.mk.inj h
      exact Or.inr ⟨finish_incomplete hfinish, r', rfl, hfinish⟩
    · rintro (⟨_, h⟩ | ⟨_, r'', h, hfinish⟩)
      · exact nomatch congrArg Prod.snd h
      · cases h
        rw [hfinish]

/-- A success leaves nothing open. -/
theorem run_eq_ok_iff {strict : Bool} {items : List Item} {r : Reading} {gaps : List Gap}
    {es : List Sexp} : run strict items r = (gaps, .ok es) ↔
      ∃ r', advance strict items r = (gaps, .ok r') ∧ r'.frames = [] ∧ r'.done.reverse = es := by
  rw [run_eq_advance]
  rcases hadvance : advance strict items r with ⟨gaps', err' | r'⟩
  · constructor
    · exact fun h => nomatch congrArg Prod.snd h
    · exact fun ⟨_, h, _⟩ => nomatch congrArg Prod.snd h
  · dsimp only
    constructor
    · intro h
      obtain ⟨rfl, hfinish⟩ := Prod.mk.inj h
      exact ⟨r', rfl, finish_eq_ok_iff.1 hfinish⟩
    · rintro ⟨_, h, hframes⟩
      cases h
      rw [finish_eq_ok_iff.2 hframes]

/-! ## What was read before -/

/-- **The same state after other expressions**, the last one first. -/
def behind (earlier : List Sexp) (r : Reading) : Reading :=
  { r with done := r.done ++ earlier }

/-- An expression goes where it goes, whatever was completed before. -/
theorem deliver_append (earlier : List Sexp) (frames : List Frame) (e : Sexp)
    (done : List Sexp) : deliver e frames (done ++ earlier) =
      ((deliver e frames done).1, (deliver e frames done).2 ++ earlier) := by
  induction frames generalizing e with
  | nil => rfl
  | cons f frames ih =>
    cases f with
    | list start items => rfl
    | quote => exact ih (quoteForm e)

/-- The state after a complete expression, behind others. -/
theorem complete_behind (earlier : List Sexp) (r : Reading) (e : Sexp) :
    (r.behind earlier).complete e = (r.complete e).behind earlier := by
  unfold complete behind
  dsimp only
  rw [deliver_append]

/-- **A token does the same behind other expressions.** -/
theorem step_behind (earlier : List Sexp) (r : Reading) (t : Token) :
    (r.behind earlier).step t = (r.step t).map (behind earlier) := by
  have hcomplete : ∀ (frames : List Frame) (e : Sexp),
      complete ⟨frames, r.done ++ earlier, t.span.stop⟩ e =
        (complete ⟨frames, r.done, t.span.stop⟩ e).behind earlier :=
    fun frames e => complete_behind earlier ⟨frames, r.done, t.span.stop⟩ e
  unfold step
  cases t.kind with
  | nil | true | false | symbol => exact congrArg Except.ok (hcomplete r.frames _)
  | number =>
    dsimp only
    cases Literal.fraction .double t.text with
    | error reason => rfl
    | ok x => exact congrArg Except.ok (hcomplete r.frames _)
  | string =>
    dsimp only
    cases content? t.text with
    | none => rfl
    | some s => exact congrArg Except.ok (hcomplete r.frames _)
  | quote | lparen | whitespace | other => rfl
  | rparen =>
    dsimp only [behind]
    rcases r.frames with _ | ⟨start, items⟩ | ⟨frames⟩
    · rfl
    · dsimp only
      cases resolveDots? items.reverse with
      | none => rfl
      | some elements => exact congrArg Except.ok (hcomplete _ _)
    · rfl
  | dot =>
    dsimp only [behind]
    rcases r.frames with _ | ⟨start, items⟩ | ⟨frames⟩ <;> rfl

/-- The end of the input behind other expressions. -/
theorem finish_behind (earlier : List Sexp) (r : Reading) :
    (r.behind earlier).finish = r.finish.map (earlier.reverse ++ ·) := by
  obtain ⟨frames, done, stop⟩ := r
  rcases frames with _ | ⟨start, items⟩ | ⟨frames⟩
  · exact congrArg Except.ok List.reverse_append
  · rfl
  · rfl

/-- **What is read behind other expressions** comes after them. -/
theorem run_behind (earlier : List Sexp) (strict : Bool) (items : List Item) (r : Reading) :
    run strict items (r.behind earlier) =
      ((run strict items r).1, (run strict items r).2.map (earlier.reverse ++ ·)) := by
  induction items generalizing r with
  | nil => exact congrArg (Prod.mk []) (finish_behind earlier r)
  | cons item items ih =>
    cases item with
    | gap g =>
      cases strict with
      | true => rfl
      | false => simp only [run, Bool.false_eq_true, if_false, ih]
    | token t =>
      rw [run, run, step_behind]
      cases r.step t with
      | error err => rfl
      | ok r' => exact ih r'

/-- The position of the last token matters only where something is open. -/
theorem run_closed_stop (strict : Bool) (items : List Item) (done : List Sexp)
    (stop stop' : Nat) :
    run strict items ⟨[], done, stop⟩ = run strict items ⟨[], done, stop'⟩ := by
  induction items with
  | nil => rfl
  | cons item items ih =>
    cases item with
    | gap g => rw [run, run, ih]
    | token t => rfl

/-! ## Completing an input -/

end Reading

/-- **An open construct takes one more element**, which closes it or lets it be closed: a
quoting mark, or a list without a dot before its last element. -/
def Frame.Takes : Frame → Prop
  | .list _ items => .dot ∉ items.tail
  | .quote => True

/-- **An open construct can be closed**, at once or after one more element. -/
def Frame.Closes : Frame → Prop
  | .list start items =>
    (Reading.resolveDots? items.reverse).isSome ∨ Frame.Takes (.list start items)
  | .quote => True

instance : DecidablePred Frame.Takes
  | .list _ items => inferInstanceAs (Decidable (.dot ∉ items.tail))
  | .quote => inferInstanceAs (Decidable True)

instance : DecidablePred Frame.Closes
  | .list start items => inferInstanceAs
      (Decidable ((Reading.resolveDots? items.reverse).isSome ∨ Frame.Takes (.list start items)))
  | .quote => inferInstanceAs (Decidable True)

theorem Frame.Takes.closes {f : Frame} (h : f.Takes) : f.Closes := by
  cases f with
  | list start items => exact Or.inr h
  | quote => trivial

namespace Reading

/-- **All constructs can be closed**: the innermost one somehow, the others by what it
becomes. -/
def Closable : List Frame → Prop
  | [] => True
  | f :: frames => f.Closes ∧ ∀ g ∈ frames, g.Takes

instance : DecidablePred Closable
  | [] => inferInstanceAs (Decidable True)
  | f :: frames => inferInstanceAs (Decidable (f.Closes ∧ ∀ g ∈ frames, g.Takes))

/-- Constructs that take one more element can be closed. -/
theorem closable_of_takes {frames : List Frame} (h : ∀ f ∈ frames, f.Takes) :
    Closable frames := by
  cases frames with
  | nil => trivial
  | cons f frames =>
    exact ⟨(h f List.mem_cons_self).closes, fun g hg => h g (List.mem_cons_of_mem f hg)⟩

/-- **A list that ends in an expression** can be closed if the only dot, if any, stands before
that expression. -/
theorem isSome_resolveDots?_iff {e : Sexp} (he : e ≠ .dot) (items : List Sexp) :
    (resolveDots? (e :: items).reverse).isSome ↔ .dot ∉ items.tail := by
  rw [Option.isSome_iff_exists]
  constructor
  · rintro ⟨elements, h⟩
    rcases resolveDots?_eq_some_iff.1 h with ⟨hdot, _⟩ | ⟨init, last, heq, hinit, _⟩
    · exact fun h => hdot (List.mem_reverse.2 (List.mem_cons_of_mem e (List.mem_of_mem_tail h)))
    · have heq : e :: items = last :: .dot :: init.reverse := by
        rw [← List.reverse_reverse (e :: items), heq]
        simp
      rw [(List.cons.inj heq).2]
      exact fun h => hinit (List.mem_reverse.1 h)
  · intro hdot
    by_cases hin : .dot ∈ items
    · -- the dot is the element before
      cases items with
      | nil => cases hin
      | cons x rest =>
        obtain rfl : .dot = x := (List.mem_cons.1 hin).resolve_right hdot
        refine ⟨_, resolveDots?_eq_some_iff.2 (Or.inr ⟨rest.reverse, e, ?_,
          fun h => hdot (List.mem_reverse.1 h), he, rfl⟩)⟩
        simp
    · refine ⟨_, resolveDots?_eq_some_iff.2 (Or.inl ⟨fun h => ?_, rfl⟩)⟩
      exact hin ((List.mem_cons.1 (List.mem_reverse.1 h)).resolve_left (Ne.symm he))

/-- A list that ends in a dot cannot be closed. -/
theorem resolveDots?_reverse_dot (items : List Sexp) :
    resolveDots? (.dot :: items).reverse = none := by
  rw [Option.eq_none_iff_forall_ne_some]
  intro elements h
  rcases resolveDots?_eq_some_iff.1 h with ⟨hdot, _⟩ | ⟨init, last, heq, _, hlast, _⟩
  · exact hdot (List.mem_reverse.2 List.mem_cons_self)
  · have heq : .dot :: items = last :: .dot :: init.reverse := by
      rw [← List.reverse_reverse (.dot :: items), heq]
      simp
    exact hlast (List.cons.inj heq).1.symm

/-- A list without dots can be closed. -/
theorem isSome_resolveDots?_of_not_mem {items : List Sexp} (h : .dot ∉ items) :
    (resolveDots? items.reverse).isSome :=
  Option.isSome_iff_exists.2 ⟨_, resolveDots?_eq_some_iff.2
    (Or.inl ⟨fun hin => h (List.mem_reverse.1 hin), rfl⟩)⟩

/-- **After a complete expression** all constructs can be closed if and only if each of them
took one more element. -/
theorem closable_deliver_iff {e : Sexp} (he : e ≠ .dot) (frames : List Frame)
    (done : List Sexp) : Closable (deliver e frames done).1 ↔ ∀ f ∈ frames, f.Takes := by
  induction frames generalizing e with
  | nil => exact ⟨fun _ _ h => absurd h List.not_mem_nil, fun _ => trivial⟩
  | cons f frames ih =>
    rw [List.forall_mem_cons]
    cases f with
    | list start items =>
      refine and_congr_left fun _ => ?_
      change (_ ∨ .dot ∉ items) ↔ .dot ∉ items.tail
      rw [isSome_resolveDots?_iff he]
      exact ⟨fun h => h.elim id fun h hin => h (List.mem_of_mem_tail hin), Or.inl⟩
    | quote => exact (ih Sexp.noConfusion).trans (and_iff_right trivial).symm

/-- **What can be completed could be completed before**: no token makes good for a dot. -/
theorem Accepts.closable {r r' : Reading} {t : Token} (h : r.Accepts t r')
    (hclosable : Closable r'.frames) : Closable r.frames := by
  cases h with
  | atom h =>
    exact closable_of_takes
      ((closable_deliver_iff (Token.whole_of_atom? h _ .here).1 _ _).1 hclosable)
  | quote | opening => exact closable_of_takes hclosable.2
  | @dot start items frames h hframes =>
    rw [hframes]
    refine ⟨Or.inl (isSome_resolveDots?_of_not_mem ?_), hclosable.2⟩
    rcases hclosable.1 with hresolved | htakes
    · rw [resolveDots?_reverse_dot] at hresolved
      exact nomatch hresolved
    · exact htakes
  | closing h hframes helements =>
    rw [hframes]
    exact ⟨Or.inl (Option.isSome_iff_exists.2 ⟨_, helements⟩),
      (closable_deliver_iff Sexp.noConfusion _ _).1 hclosable⟩

/-- What can be completed could be completed before the last part of the input. -/
theorem Reaches.closable {strict : Bool} {items : List Item} {r r' : Reading}
    {gaps : List Gap} (h : Reaches strict items r gaps r') (hclosable : Closable r'.frames) :
    Closable r.frames := by
  induction h with
  | nil => exact hclosable
  | gap _ _ ih => exact ih hclosable
  | token haccepts _ ih => exact haccepts.closable (ih hclosable)

/-- **The number of lists** among open constructs: so many parentheses are missing. -/
def openLists : List Frame → Nat
  | [] => 0
  | .list _ _ :: frames => openLists frames + 1
  | .quote :: frames => openLists frames

/-- A parenthesis closes the innermost list, and what is left closes the rest around it. -/
theorem run_closing (strict : Bool) {c : Token} (hc : c.kind = .rparen) {items : List Sexp}
    (hitems : (resolveDots? items.reverse).isSome) {closings : List Token} (start : Nat)
    {frames : List Frame} {done : List Sexp} {stop : Nat}
    (h : ∀ elements : List Sexp, ∃ es, run strict (closings.map .token)
      (complete ⟨frames, done, c.span.stop⟩ (.list elements)) = ([], .ok es)) :
    ∃ es, run strict ((c :: closings).map .token) ⟨.list start items :: frames, done, stop⟩ =
      ([], .ok es) := by
  obtain ⟨elements, helements⟩ := Option.isSome_iff_exists.1 hitems
  obtain ⟨es, hrun⟩ := h elements
  exact ⟨es, (run_cons (step_closing hc helements start stop done frames)).trans hrun⟩

/-- **Parentheses close what takes one more element**, once the innermost construct got it. -/
theorem run_closings (strict : Bool) {e : Sexp} (he : e ≠ .dot) {frames : List Frame}
    (htakes : ∀ f ∈ frames, f.Takes) (done : List Sexp) (stop : Nat) {closings : List Token}
    (hclosings : ∀ c ∈ closings, c.kind = .rparen) (hlength : closings.length = openLists frames) :
    ∃ es, run strict (closings.map .token) (complete ⟨frames, done, stop⟩ e) = ([], .ok es) := by
  induction frames generalizing e stop closings with
  | nil =>
    obtain rfl := List.eq_nil_of_length_eq_zero hlength
    exact ⟨_, rfl⟩
  | cons f frames ih =>
    obtain ⟨hf, hrest⟩ := List.forall_mem_cons.1 htakes
    cases f with
    | quote => exact ih Sexp.noConfusion hrest stop hclosings hlength
    | list start items =>
      cases closings with
      | nil => cases hlength
      | cons c closings =>
        obtain ⟨hc, hclosings⟩ := List.forall_mem_cons.1 hclosings
        exact run_closing strict hc ((isSome_resolveDots?_iff he items).2 hf) start fun _ =>
          ih Sexp.noConfusion hrest c.span.stop hclosings (Nat.succ.inj hlength)

/-- Parentheses close a list that can be closed at once, and what takes it. -/
theorem run_closings_list (strict : Bool) (start : Nat) {items : List Sexp}
    {frames : List Frame} (hitems : (resolveDots? items.reverse).isSome)
    (htakes : ∀ f ∈ frames, f.Takes) (done : List Sexp) (stop : Nat) {closings : List Token}
    (hclosings : ∀ c ∈ closings, c.kind = .rparen)
    (hlength : closings.length = openLists frames + 1) :
    ∃ es, run strict (closings.map .token) ⟨.list start items :: frames, done, stop⟩ =
      ([], .ok es) := by
  cases closings with
  | nil => cases hlength
  | cons c closings =>
    obtain ⟨hc, hclosings⟩ := List.forall_mem_cons.1 hclosings
    exact run_closing strict hc hitems start fun _ =>
      run_closings strict Sexp.noConfusion htakes done c.span.stop hclosings (Nat.succ.inj hlength)

/-- **A state from which reading succeeds** with some continuation can be completed. -/
theorem closable_of_run {strict : Bool} {items : List Item} {r : Reading} {gaps : List Gap}
    {es : List Sexp} (h : run strict items r = (gaps, .ok es)) : Closable r.frames := by
  obtain ⟨r', hadvance, hframes, _⟩ := run_eq_ok_iff.1 h
  exact (reaches_of_advance hadvance).closable (by rw [hframes]; trivial)

/-- **An atom and then parentheses close what takes one more element.** -/
theorem run_atom_closings (strict : Bool) {r : Reading} (htakes : ∀ f ∈ r.frames, f.Takes)
    {a : Token} {e : Sexp} (ha : a.atom? = some e) {closings : List Token}
    (hclosings : ∀ c ∈ closings, c.kind = .rparen)
    (hlength : closings.length = openLists r.frames) :
    ∃ es, run strict (.token a :: closings.map .token) r = ([], .ok es) := by
  obtain ⟨es, hrun⟩ := run_closings strict (Token.whole_of_atom? ha _ .here).1 htakes r.done
    a.span.stop hclosings hlength
  exact ⟨es, (run_cons (step_atom ha r)).trans hrun⟩

/-- **How open constructs can be closed**: the innermost one is a list that can be closed at
once, or each of them takes one more element. -/
theorem Closable.cases {frames : List Frame} (h : Closable frames) :
    (∃ start items rest, frames = .list start items :: rest ∧
      (resolveDots? items.reverse).isSome ∧ ∀ f ∈ rest, f.Takes) ∨
    ∀ f ∈ frames, f.Takes := by
  cases frames with
  | nil => exact Or.inr fun _ hf => absurd hf List.not_mem_nil
  | cons f frames =>
    cases f with
    | quote => exact Or.inr (List.forall_mem_cons.2 h)
    | list start items =>
      rcases h.1 with hitems | htakes
      · exact Or.inl ⟨start, items, frames, rfl, hitems, h.2⟩
      · exact Or.inr (List.forall_mem_cons.2 ⟨htakes, h.2⟩)

/-! ## Inputs without dots -/

end Reading

/-- **No dot is collected** in an open construct. -/
def Frame.Dotless : Frame → Prop
  | .list _ items => .dot ∉ items
  | .quote => True

theorem Frame.Dotless.takes {f : Frame} (h : f.Dotless) : f.Takes := by
  cases f with
  | list start items => exact fun hin => h (List.mem_of_mem_tail hin)
  | quote => trivial

namespace Reading

/-- A complete expression is no dot. -/
theorem dotless_deliver {e : Sexp} (he : e ≠ .dot) {frames : List Frame}
    (h : ∀ f ∈ frames, f.Dotless) (done : List Sexp) :
    ∀ f ∈ (deliver e frames done).1, f.Dotless := by
  induction frames generalizing e with
  | nil => exact h
  | cons f frames ih =>
    obtain ⟨hf, hrest⟩ := List.forall_mem_cons.1 h
    cases f with
    | list start items =>
      refine List.forall_mem_cons.2 ⟨fun hin => ?_, hrest⟩
      exact (List.mem_cons.1 hin).elim (fun heq => he heq.symm) hf
    | quote => exact ih Sexp.noConfusion hrest

/-- **Dots come from tokens** only. -/
theorem Accepts.dotless {r r' : Reading} {t : Token} (h : r.Accepts t r') (ht : t.kind ≠ .dot)
    (hdotless : ∀ f ∈ r.frames, f.Dotless) : ∀ f ∈ r'.frames, f.Dotless := by
  cases h with
  | atom h => exact dotless_deliver (Token.whole_of_atom? h _ .here).1 hdotless _
  | quote => exact List.forall_mem_cons.2 ⟨trivial, hdotless⟩
  | opening => exact List.forall_mem_cons.2 ⟨List.not_mem_nil, hdotless⟩
  | dot h => exact absurd h ht
  | closing h hframes =>
    rw [hframes] at hdotless
    exact dotless_deliver Sexp.noConfusion (List.forall_mem_cons.1 hdotless).2 _

theorem Reaches.dotless {strict : Bool} {items : List Item} {r r' : Reading} {gaps : List Gap}
    (h : Reaches strict items r gaps r') (hitems : ∀ t, .token t ∈ items → t.kind ≠ .dot)
    (hdotless : ∀ f ∈ r.frames, f.Dotless) : ∀ f ∈ r'.frames, f.Dotless := by
  induction h with
  | nil => exact hdotless
  | gap _ _ ih => exact ih (fun t ht => hitems t (List.mem_cons_of_mem _ ht)) hdotless
  | token haccepts _ ih =>
    exact ih (fun t ht => hitems t (List.mem_cons_of_mem _ ht))
      (haccepts.dotless (hitems _ List.mem_cons_self) hdotless)

/-! ## Whether a quoting mark is the last token -/

/-- **The last token**; gaps after it do not count. -/
def lastToken? : List Item → Option Token
  | [] => none
  | .gap _ :: rest => lastToken? rest
  | .token t :: rest => some ((lastToken? rest).getD t)

/-- **A quoting mark awaits its expression** at the end of the input. -/
def endsInQuote (items : List Item) : Bool :=
  (lastToken? items).any fun t => t.kind == .quote

/-- No quoting mark is innermost after a complete expression. -/
theorem deliver_ne_quote (e : Sexp) (frames : List Frame) (done : List Sexp) :
    (deliver e frames done).1.head? ≠ some .quote := by
  induction frames generalizing e with
  | nil => exact nofun
  | cons f frames ih =>
    cases f with
    | list start items => exact nofun
    | quote => exact ih (quoteForm e)

/-- A quoting mark is innermost right after it. -/
theorem Accepts.head_eq_quote_iff {r r' : Reading} {t : Token} (h : r.Accepts t r') :
    r'.frames.head? = some .quote ↔ t.kind = .quote := by
  cases h with
  | atom h => exact iff_of_false (deliver_ne_quote _ _ _) (Token.kind_of_atom? h).1
  | quote h => exact iff_of_true rfl h
  | opening h | dot h => exact iff_of_false nofun (by rw [h]; decide)
  | closing h => exact iff_of_false (deliver_ne_quote _ _ _) (by rw [h]; decide)

/-- **A quoting mark is innermost** if it is the last token. -/
theorem Reaches.head_eq_quote_iff {strict : Bool} {items : List Item} {r r' : Reading}
    {gaps : List Gap} (h : Reaches strict items r gaps r') :
    r'.frames.head? = some .quote ↔
      (lastToken? items).elim (r.frames.head? = some .quote) fun t => t.kind = .quote := by
  induction h with
  | nil => exact Iff.rfl
  | gap _ _ ih => exact ih
  | @token t rest _ _ _ _ haccepts _ ih =>
    rw [ih, lastToken?]
    cases lastToken? rest with
    | none => exact haccepts.head_eq_quote_iff
    | some last => exact Iff.rfl

/-! ## Reading in two parts -/

/-- **Reading is compositional and its final errors are stable.** What follows a readable
sequence is read as if it stood alone, errors included; nothing that follows undoes an error
that is not marked incomplete; and an incomplete sequence without dots becomes readable by
closing parentheses, after one atom if it ends in a quoting mark. -/
theorem run_resumes (strict : Bool) (items rest : List Item) :
    (∀ gaps es, run strict items .start = (gaps, .ok es) →
      run strict (items ++ rest) .start =
        (gaps ++ (run strict rest .start).1, (run strict rest .start).2.map (es ++ ·))) ∧
    (∀ gaps err, run strict items .start = (gaps, .error err) → err.incomplete = false →
      run strict (items ++ rest) .start = (gaps, .error err)) ∧
    (∀ gaps err, run strict items .start = (gaps, .error err) → err.incomplete = true →
      (∀ t, .token t ∈ items → t.kind ≠ .dot) →
      ∃ n, ∀ (a : Token) (e : Sexp) (closings : List Token), a.atom? = some e →
        closings.length = n → (∀ c ∈ closings, c.kind = .rparen) →
        ∃ es, run strict (items ++
          (if endsInQuote items then a :: closings else closings).map .token) .start =
            (gaps, .ok es)) := by
  refine ⟨fun gaps es h => ?_, fun gaps err h hfinal => ?_, fun gaps err h hinc hdots => ?_⟩
  · obtain ⟨⟨frames, done, stop⟩, hadvance, hframes, hdone⟩ := run_eq_ok_iff.1 h
    dsimp only at hframes hdone
    subst hframes hdone
    have hstart : (⟨[], done, stop⟩ : Reading) = behind done ⟨[], [], stop⟩ := rfl
    rw [run_append_of_ok hadvance, hstart, run_behind, run_closed_stop strict rest [] stop 0]
    rfl
  · rcases run_eq_error_iff.1 h with ⟨_, hadvance⟩ | ⟨hinc, _⟩
    · exact run_append_of_error hadvance rest
    · exact nomatch hfinal.symm.trans hinc
  · rcases run_eq_error_iff.1 h with ⟨hfinal, _⟩ | ⟨_, r, hadvance, hfinish⟩
    · exact nomatch hfinal.symm.trans hinc
    have hreaches := reaches_of_advance hadvance
    have hdotless : ∀ f ∈ r.frames, f.Dotless :=
      hreaches.dotless hdots fun _ hf => absurd hf List.not_mem_nil
    have hquote : r.frames.head? = some .quote ↔ endsInQuote items = true := by
      rw [hreaches.head_eq_quote_iff, endsInQuote]
      cases lastToken? items with
      | none => exact iff_of_false nofun nofun
      | some t => exact beq_iff_eq.symm
    refine ⟨openLists r.frames, fun a e closings ha hlength hclosings => ?_⟩
    rw [run_append_of_ok hadvance]
    suffices hrun : ∃ es, run strict
        ((if endsInQuote items then a :: closings else closings).map .token) r = ([], .ok es) by
      obtain ⟨es, hrun⟩ := hrun
      exact ⟨es, by rw [hrun, List.append_nil]⟩
    obtain ⟨frames, done, stop⟩ := r
    cases frames with
    | nil => exact nomatch hfinish
    | cons f frames =>
      obtain ⟨hf, hrest⟩ := List.forall_mem_cons.1 hdotless
      have htakes : ∀ g ∈ frames, g.Takes := fun g hg => (hrest g hg).takes
      cases f with
      | quote =>
        rw [if_pos (hquote.1 rfl)]
        exact run_atom_closings strict
          (List.forall_mem_cons.2 ⟨show Frame.quote.Takes from trivial, htakes⟩) ha hclosings
          hlength
      | list start items =>
        rw [if_neg fun h => nomatch hquote.2 h]
        exact run_closings_list strict start (isSome_resolveDots?_of_not_mem hf) htakes done stop
          hclosings hlength

/-- With a symbol, a closing parenthesis, and an opening one before a quoting mark and a gap: the
first is read and the error of the second stands alone behind it, that error is final, and the
third is completed by any atom and some parentheses. -/
theorem run_resumes_open_quote :
    let symbol : Item := .token ⟨.symbol, "a", ⟨0, 1⟩⟩
    let closing : Item := .token ⟨.rparen, ")", ⟨1, 2⟩⟩
    let gap : Gap := ⟨"\"", ⟨2, 3⟩⟩
    let open_ : List Item := [.token ⟨.lparen, "(", ⟨0, 1⟩⟩, .token ⟨.quote, "'", ⟨1, 2⟩⟩, .gap gap]
    (run false [symbol, closing] .start).2 =
        (run false [closing] .start).2.map ([.ofName "a"] ++ ·) ∧
      (run false [closing, symbol] .start) = run false [closing] .start ∧
      ∃ n, ∀ (a : Token) (e : Sexp) (closings : List Token), a.atom? = some e →
        closings.length = n → (∀ c ∈ closings, c.kind = .rparen) →
        ∃ es, run false (open_ ++ (a :: closings).map .token) .start = ([gap], .ok es) := by
  intro symbol closing gap open_
  refine ⟨?_, ?_, ?_⟩
  · exact congrArg Prod.snd ((run_resumes false [symbol] [closing]).1 [] [.ofName "a"] rfl)
  · exact (run_resumes false [closing] [symbol]).2.1 [] _ rfl rfl
  · exact (run_resumes false open_ []).2.2 [gap] _ rfl rfl (by simp [open_])

end Reading

end PassingStyle
