import Mathlib.Data.List.Forall2
import PassingStyle.Proofs.Printed
import PassingStyle.Script

/-!
# Trees in the hands of scripts

A script has one kind of strings for symbols and string literals, one value for the empty list atom
and the absent expression, and two kinds of numbers for one. So a tree that is handed to a script,
and back from it, need not be the tree that it was: a symbol that is spelled like a string literal
comes back as the literal, and an empty symbol or a dot does not come back at all.

Trees that were read come back as themselves. A symbol that begins with a quote has no other one,
since a literal would have been read in its place, and numbers that were read are whole. Of the
trees that a compiler makes out of these that is not so, because the final continuation may have any
name. But they come back as trees with the same printed form, which is all that a script can show of
them. Both are properties of leaves (`Sexp.exists_returnsAs`), and the second one is handed down by
the conversion. So a script that reads a text, transforms it and shows the result does what the
compiler does that compiles the text.

All that is relied on of the language of scripts is that it passes values on as they are, from one
function to the next.
-/

namespace PassingStyle

open Text Tokenizer

/-! ## Strings that are enclosed in quotes -/

namespace Value

/-- A string with quotes around it is a literal. -/
theorem stringToSexp_quoted (s : Text) :
    stringToSexp (byte '"' :: s ++ [byte '"']) = .ok (.str s) := by
  have hquoted : 2 ≤ (byte '"' :: s ++ [byte '"']).length ∧
      (byte '"' :: s ++ [byte '"']).head? = some (byte '"') ∧
      (byte '"' :: s ++ [byte '"']).getLast? = some (byte '"') := by
    simp [List.getLast?_cons]
  rw [stringToSexp, if_pos hquoted]
  simp

/-- A string without quotes around it is a symbol. -/
theorem stringToSexp_of_not_quoted {s : Text} (hne : s ≠ [])
    (h : ∀ content, s ≠ byte '"' :: content ++ [byte '"']) :
    stringToSexp s = .ok (.symbol s) := by
  have hquoted : ¬ (2 ≤ s.length ∧ s.head? = some (byte '"') ∧ s.getLast? = some (byte '"')) := by
    rintro ⟨hlength, hhead, hlast⟩
    obtain ⟨b, s, rfl⟩ := List.exists_cons_of_ne_nil hne
    obtain rfl : b = byte '"' := Option.some.inj hhead
    have hs : s ≠ [] := by
      rintro rfl
      exact absurd hlength (by decide)
    rw [List.getLast?_cons_of_ne_nil hs] at hlast
    obtain ⟨content, rfl⟩ := List.getLast?_eq_some_iff.1 hlast
    exact h content rfl
  rw [stringToSexp, if_neg hquoted, if_neg (by simpa using hne)]

end Value

/-! ## Numbers that were read -/

/-- The integer that a whole number is. -/
theorem Format.IsWhole.toInt? {m v : Nat} {e : Int} (h : Format.IsWhole m e v) :
    (Number.finite false m e).toInt? = some (v : Int) := by
  have hvalue := h.value
  unfold Number.toInt?
  by_cases he : 0 ≤ e
  · rw [show (-e).toNat = 0 by omega, Nat.pow_zero, Nat.mul_one] at hvalue
    simp only [if_pos he, Nat.pow_eq, ← hvalue]
    rfl
  · rw [show e.toNat = 0 by omega, Nat.pow_zero, Nat.mul_one] at hvalue
    have hmod : m % 2 ^ (-e).toNat = 0 := by
      rw [← hvalue, Nat.mul_mod_left]
    have hdiv : m / 2 ^ (-e).toNat = v := by
      rw [← hvalue, Nat.mul_div_cancel _ (Nat.two_pow_pos _)]
    simp only [if_neg he, Nat.pow_eq, hmod, hdiv]
    rfl

/-- **A number that was read is what its value denotes**, be it an integer or a fraction. -/
theorem Value.toSexp_ofNumber {n : Nat} {x : Number} (h : Format.double.round? false n 1 = some x) :
    (Value.ofNumber x).toSexp = .ok (.number x) := by
  by_cases hn : n = 0
  · subst hn
    cases h
    decide +kernel
  obtain ⟨m, e, v, rfl, hwhole⟩ := Format.exists_whole hn h
  rw [Value.ofNumber, hwhole.toInt?]
  dsimp only
  split
  next hsmall =>
    have hbound : Value.exactBound = 2 ^ 53 := rfl
    rw [Int.natAbs_natCast, hbound] at hsmall
    have hfits : fitsSigned 64 (v : Int) = true := by
      simp [fitsSigned]
      omega
    have hread : Format.double.ofInt (v : Int) = .finite false m e := by
      have hsign : decide ((v : Int) < 0) = false := decide_eq_false (by omega)
      rw [Format.ofInt, hsign, Int.natAbs_natCast, Format.round?_whole hwhole]
      rfl
    rw [Value.toSexp, Value.intToSexp, if_pos hfits, hread]
  next => rw [Value.toSexp]

/-! ## Leaves that come back -/

namespace Sexp

/-- **An expression comes back as another one** from a script that is given its value and hands
that value on. -/
def ReturnsAs (e e' : Sexp) : Prop :=
  ∃ v, Value.ofSexp? e = some v ∧ v.toSexp = .ok e'

/-- A string literal comes back as itself. -/
theorem returnsAs_str (s : Text) : (str s).ReturnsAs (str s) :=
  ⟨_, rfl, Value.stringToSexp_quoted s⟩

/-- A symbol comes back as itself, unless it is spelled like a string literal. -/
theorem returnsAs_symbol {s : Text} (hne : s ≠ [])
    (h : ∀ content, s ≠ byte '"' :: content ++ [byte '"']) : (symbol s).ReturnsAs (symbol s) :=
  ⟨_, rfl, Value.stringToSexp_of_not_quoted hne h⟩

/-- A legible symbol is not spelled like a string literal. -/
theorem Legible.not_quoted {later : Prop} {s : Text} (h : Legible later (symbol s))
    (content : Text) : s ≠ byte '"' :: content ++ [byte '"'] := by
  rintro rfl
  obtain ⟨-, rest, -, hhere⟩ := h
  rw [List.cons_append] at hhere
  exact (here?_symbol_iff.1 hhere).2.2.2 rfl (by simp)

/-- **A legible atom comes back as itself.** -/
theorem Legible.returnsAs {later : Prop} {a : Sexp} (ha : a.isList = false)
    (h : Legible later a) : a.ReturnsAs a := by
  cases a with
  | symbol s => exact returnsAs_symbol h.1 h.not_quoted
  | str s => exact returnsAs_str s
  | number x =>
    obtain ⟨n, hn⟩ := h
    exact ⟨_, rfl, Value.toSexp_ofNumber hn⟩
  | bool b => exact ⟨_, rfl, rfl⟩
  | nil => exact ⟨_, rfl, rfl⟩
  | absent => exact h.elim
  | dot => exact h.elim
  | list xs => exact nomatch ha

/-- **The expression comes back**, if not as itself then as one with the same printed form. -/
def Reprints (e : Sexp) : Prop :=
  ∃ e', e.ReturnsAs e' ∧ e.print = e'.print

/-- A symbol comes back unless it is empty, also if it is spelled like a string literal. -/
theorem reprints_symbol {s : Text} (hne : s ≠ []) : (symbol s).Reprints := by
  by_cases h : ∃ content, s = byte '"' :: content ++ [byte '"']
  · obtain ⟨content, rfl⟩ := h
    exact ⟨str content, ⟨_, rfl, Value.stringToSexp_quoted content⟩, rfl⟩
  · exact ⟨symbol s, returnsAs_symbol hne (not_exists.1 h), rfl⟩

/-- A symbol that comes back is not empty. -/
theorem Reprints.ne_nil {s : Text} (h : (symbol s).Reprints) : s ≠ [] := by
  rintro rfl
  obtain ⟨_, ⟨v, hv, hback⟩, _⟩ := h
  cases hv
  exact nomatch hback

/-- **Coming back is handed down** from the atoms of a program to those of its conversion. -/
theorem handedDown_reprints : HandedDown Reprints where
  words :=
    { keyword := fun k => by cases k <;> exact reprints_symbol (by decide)
      setThen := reprints_symbol (by decide)
      undef := reprints_symbol (by decide)
      cps := reprints_symbol (by decide) }
  bases base hbase := by
    rcases List.mem_pair.1 hbase with rfl | rfl <;> exact reprints_symbol (by decide)
  numbered s n h := reprints_symbol (List.append_ne_nil_of_left_ne_nil h.ne_nil _)

/-! ## Trees that come back -/

section Trees

variable {Q : Sexp → Sexp → Prop}

mutual

/-- **A tree comes back if its leaves do.** What relates each leaf to what it comes back as relates
the tree to what it comes back as, if that holds of lists when it holds of their elements. -/
theorem exists_returnsAs (hlist : ∀ xs ys, List.Forall₂ Q xs ys → Q (list xs) (list ys)) :
    ∀ {e : Sexp}, e.Over (fun a => ∃ a', a.ReturnsAs a' ∧ Q a a') → ∃ e', e.ReturnsAs e' ∧ Q e e'
  | list xs, h => by
    obtain ⟨vs, ys, hvs, hys, hQ⟩ := exists_returnsAll hlist (over_list.1 h)
    refine ⟨list ys, ⟨.list vs, ?_, ?_⟩, hlist xs ys hQ⟩
    · rw [Value.ofSexp?, hvs]
      rfl
    · rw [Value.toSexp, hys]
      rfl
  | absent, h | symbol _, h | number _, h | str _, h | bool _, h | nil, h | dot, h => by
    rw [Over, leaves_atom rfl, List.forall_mem_singleton] at h
    exact h

theorem exists_returnsAll (hlist : ∀ xs ys, List.Forall₂ Q xs ys → Q (list xs) (list ys)) :
    ∀ {xs : List Sexp}, (∀ x ∈ xs, x.Over fun a => ∃ a', a.ReturnsAs a' ∧ Q a a') →
      ∃ vs ys, Value.ofSexps? xs = some vs ∧ Value.toSexps vs = .ok ys ∧ List.Forall₂ Q xs ys
  | [], _ => ⟨[], [], rfl, rfl, .nil⟩
  | x :: xs, h => by
    obtain ⟨hx, hxs⟩ := List.forall_mem_cons.1 h
    obtain ⟨y, ⟨v, hv, hy⟩, hxy⟩ := exists_returnsAs hlist hx
    obtain ⟨vs, ys, hvs, hys, hQ⟩ := exists_returnsAll hlist hxs
    refine ⟨v :: vs, y :: ys, ?_, ?_, .cons hxy hQ⟩
    · rw [Value.ofSexps?, hv, hvs]
      rfl
    · rw [Value.toSexps, hy, hys]
      rfl

end

end Trees

/-- **A legible tree comes back as itself.** -/
theorem Legible.tree_returnsAs {later : Prop} {e : Sexp} (h : Legible later e) :
    e.ReturnsAs e := by
  have hleaves : e.Over fun a => ∃ a', a.ReturnsAs a' ∧ a = a' := fun a ha =>
    ⟨a, Legible.returnsAs (isList_of_mem_leaves ha) ((legible_iff.1 h).legible a ha), rfl⟩
  obtain ⟨_, hreturns, rfl⟩ := exists_returnsAs
    (fun xs ys hall => congrArg list (List.forall₂_eq_eq_eq ▸ hall)) hleaves
  exact hreturns

/-- Elements that print alike make lists that print alike. -/
theorem printList_congr {xs ys : List Sexp}
    (h : List.Forall₂ (fun x y => x.print = y.print) xs ys) : printList xs = printList ys := by
  induction h with
  | nil => rfl
  | @cons x y xs ys hxy hrest ih =>
    cases hrest with
    | nil => exact hxy
    | cons => rw [printList, printList, hxy, ih]

/-- **A tree comes back with the same printed form** if its leaves do. -/
theorem Over.reprints {e : Sexp} (h : e.Over Reprints) : e.Reprints :=
  exists_returnsAs (fun xs ys hall => by rw [print, print, printList_congr hall]) h

end Sexp

/-! ## What the functions of scripts do -/

/-- **What is relied on of a script language**: a string that is spelled out is that string, a call
hands the value of its argument on and answers what the function answers, and a function with one
parameter takes its only argument as it is. -/
structure ScriptLanguage.Passes (L : ScriptLanguage) : Prop where
  /-- The value of a string that is spelled out. -/
  literal : ∀ host text, L.eval host (L.literal text) = pure (.string text)
  /-- The value of a call. -/
  apply : ∀ host (f : Offered) t,
    L.eval host (L.apply f.name t) = L.eval host t >>= fun v => host.offers f [v] []
  /-- A string as the only argument. -/
  text : ∀ function parameter s, L.textArgument function parameter [.string s] [] = pure s
  /-- Any value as the only argument. -/
  argument : ∀ function parameter v, L.valueArgument function parameter [v] [] = pure v

namespace Runner

variable {ε α β : Type}

/-- The answer is a part of the outcome. -/
theorem answer_of_outcome {action : ExceptT ε (StateM Runner) α} {r r' : Runner}
    {answered : Except ε α} (h : outcome action r = (answered, r')) : answer action r = answered :=
  congrArg Prod.fst h

section Steps

variable {x : Scripting α} {k : α → Scripting β} {r r' : Runner} {a : α} {e : ScriptError}

/-- A step that succeeds is followed by the next one. -/
theorem outcome_bind_of_ok (h : outcome x r = (.ok a, r')) :
    outcome (x >>= k) r = outcome (k a) r' := by
  rw [outcome_bind, h]

/-- A step that fails is the last one. -/
theorem outcome_bind_of_error (h : outcome x r = (.error e, r')) :
    outcome (x >>= k) r = (.error e, r') := by
  rw [outcome_bind, h]

end Steps

/-- Work of the compiler inside a script. -/
theorem outcome_compiling (action : Compile α) (r : Runner) :
    outcome (compiling action) r = ((Compiler.outcome action r.compiler).1.mapError .failed,
      { r with compiler := (Compiler.outcome action r.compiler).2 }) := by
  show ((outcome (working action) r).1.mapError _, (outcome (working action) r).2) = _
  rw [outcome_working]

section Handing

variable {r : Runner} {c : Compiler} {v : Value} {e : Sexp} {f : Failure} {action : Compile Sexp}

/-- **What a compiler hands to a script**: the value of the expression. -/
theorem outcome_handed_of_ok (hv : Value.ofSexp? e = some v)
    (h : Compiler.outcome action r.compiler = (.ok e, c)) :
    outcome (compiling action >>= valueOf) r = (.ok v, { r with compiler := c }) := by
  have hcompiling := outcome_compiling action r
  rw [h] at hcompiling
  rw [outcome_bind_of_ok hcompiling, valueOf, hv]
  rfl

/-- A compiler that fails makes the script fail. -/
theorem outcome_handed_of_error (h : Compiler.outcome action r.compiler = (.error f, c)) :
    outcome (compiling action >>= valueOf) r = (.error (.failed f), { r with compiler := c }) := by
  have hcompiling := outcome_compiling action r
  rw [h] at hcompiling
  exact outcome_bind_of_error hcompiling

end Handing

end Runner

namespace ScriptLanguage.Passes

open Runner

variable {L : ScriptLanguage} {t : L.Term} {r r' : Runner} {v : Value} {e : Sexp}
  {err : ScriptError}

/-- A call with one argument evaluates the argument first. -/
theorem value_call (hL : L.Passes) (f : Offered) (t : L.Term) :
    L.value (L.call f t) = L.value t >>= fun v => L.host.offers f [v] [] :=
  hL.apply L.host f t

/-- **A call whose argument has a value.** -/
theorem outcome_call_of_ok (hL : L.Passes) (f : Offered) (h : outcome (L.value t) r = (.ok v, r')) :
    outcome (L.value (L.call f t)) r = outcome (L.host.offers f [v] []) r' := by
  rw [hL.value_call, outcome_bind_of_ok h]

/-- A call whose argument fails. -/
theorem outcome_call_of_error (hL : L.Passes) (f : Offered)
    (h : outcome (L.value t) r = (.error err, r')) :
    outcome (L.value (L.call f t)) r = (.error err, r') := by
  rw [hL.value_call, outcome_bind_of_error h]

/-- A string that is spelled out. -/
theorem outcome_literal (hL : L.Passes) (text : Text) (r : Runner) :
    outcome (L.value (L.literal text)) r = (.ok (.string text), r) := by
  unfold value
  rw [hL.literal]
  rfl

/-- Reading a text that is spelled out. -/
theorem outcome_read (hL : L.Passes) (text : Text) (r : Runner) :
    outcome (L.value (L.call .read (L.literal text))) r =
      outcome (compiling (Compiler.read text) >>= valueOf) r := by
  have hread : L.read [.string text] [] = compiling (Compiler.read text) >>= valueOf := by
    unfold read
    rw [hL.text, pure_bind]
  rw [hL.outcome_call_of_ok .read (hL.outcome_literal text r)]
  exact congrArg (outcome · r) hread

/-- Normalizing a text that is spelled out. -/
theorem outcome_normalize (hL : L.Passes) (text : Text) (r : Runner) :
    outcome (L.value (L.call .normalize (L.literal text))) r =
      outcome (L.normalize [.string text] []) r :=
  hL.outcome_call_of_ok .normalize (hL.outcome_literal text r)

/-- The expression that a function gets from a script. -/
theorem treeArgument_eq (hL : L.Passes) (f : Offered) (hv : v.toSexp = .ok e) :
    L.treeArgument f [v] [] = pure e := by
  unfold treeArgument
  rw [hL.argument, pure_bind, expression, hv]

/-- Showing a term whose value is that of an expression. -/
theorem outcome_show (hL : L.Passes) (h : outcome (L.value t) r = (.ok v, r'))
    (hv : v.toSexp = .ok e) :
    outcome (L.value (L.call .display t)) r = (.ok (.string e.print), r') := by
  have hshow : L.display [v] [] = pure (.string e.print) := by
    unfold display
    rw [hL.treeArgument_eq .display hv, pure_bind]
  rw [hL.outcome_call_of_ok .display h]
  exact congrArg (outcome · r') hshow

/-- Transforming a term whose value is that of an expression. -/
theorem outcome_transform (hL : L.Passes) (h : outcome (L.value t) r = (.ok v, r'))
    (hv : v.toSexp = .ok e) :
    outcome (L.value (L.call .transform t)) r =
      outcome (compiling (Compiler.convert e) >>= valueOf) r' := by
  have htransform : L.transform [v] [] = compiling (Compiler.convert e) >>= valueOf := by
    unfold transform
    rw [hL.treeArgument_eq .transform hv, pure_bind]
  rw [hL.outcome_call_of_ok .transform h]
  exact congrArg (outcome · r') htransform

end ScriptLanguage.Passes

/-! ## Trees that a compiler hands out -/

namespace Compiler

open Sexp

variable {c c' : Compiler} {text : Text} {e out : Sexp}

/-- What a compiler reads is legible. -/
theorem legible_of_outcome_read (h : outcome (read text) c = (.ok e, c')) : e.Legible False :=
  Reader.legible_of_read rfl (Prod.ext rfl (read_of_outcome h))

/-- The final continuation has a name, whatever the settings are. -/
theorem finalCont_ne_nil (s : Settings) : s.finalCont ≠ [] := by
  unfold Settings.finalCont
  split
  · decide
  next hhalt => exact fun hnil => hhalt (List.isEmpty_iff.2 hnil)

/-- **What a compiler makes of a legible tree** comes back with the same printed form. -/
theorem reprints_of_convert (he : e.Legible False) (h : outcome (convert e) c = (.ok out, c')) :
    out.Reprints := by
  have hleaves : e.Over Reprints := fun a ha =>
    ⟨a, ((legible_iff.1 he).legible a ha).returnsAs (isList_of_mem_leaves ha), rfl⟩
  exact (handedDown_reprints.convert (reprints_symbol (finalCont_ne_nil _)) hleaves h).reprints

end Compiler

/-! ## Scripts and compilers -/

namespace ScriptLanguage

open Runner Sexp

variable {L : ScriptLanguage} {text : Text} {e : Sexp} {r : Runner}

/-- **Showing what was read** is printing it. -/
theorem Passes.show_read (hL : L.Passes) (h : (r.compiler.reader.read text).2 = .ok e) :
    answer (L.value (L.call .display (L.call .read (L.literal text)))) r = .ok (.string e.print) := by
  have hread := Compiler.outcome_read text r.compiler
  rw [h] at hread
  have hrun : Compiler.outcome (Compiler.read text) r.compiler = (.ok e, _) := Prod.ext hread rfl
  obtain ⟨v, hv, hback⟩ := (Compiler.legible_of_outcome_read hrun).tree_returnsAs
  have hvalue := (hL.outcome_read text r).trans (outcome_handed_of_ok hv hrun)
  exact answer_of_outcome (hL.outcome_show hvalue hback)

/-- **Reading, transforming and showing is compiling.** -/
theorem Passes.show_transform_read (hL : L.Passes) (text : Text) (r : Runner) :
    outcome (L.value (L.call .display (L.call .transform (L.call .read (L.literal text))))) r =
      match Compiler.outcome (Compiler.compile text) r.compiler with
      | (.ok out, c) => (.ok (.string out.print), { r with compiler := c })
      | (.error f, c) => (.error (.failed f), { r with compiler := c }) := by
  unfold Compiler.compile
  rw [Compiler.outcome_bind]
  rcases hread : Compiler.outcome (Compiler.read text) r.compiler with ⟨f | e, c₁⟩
  · have hfails := (hL.outcome_read text r).trans (outcome_handed_of_error hread)
    rw [hL.outcome_call_of_error .display (hL.outcome_call_of_error .transform hfails)]
  · have he := Compiler.legible_of_outcome_read hread
    obtain ⟨v, hv, hback⟩ := he.tree_returnsAs
    have hvalue := (hL.outcome_read text r).trans (outcome_handed_of_ok hv hread)
    have htransform := hL.outcome_transform hvalue hback
    dsimp only
    rcases hconvert : Compiler.outcome (Compiler.convert e) c₁ with ⟨f | out, c₂⟩
    · rw [outcome_handed_of_error hconvert] at htransform
      rw [hL.outcome_call_of_error .display htransform]
    · obtain ⟨out', ⟨w, hw, hback'⟩, hprint⟩ := Compiler.reprints_of_convert he hconvert
      rw [outcome_handed_of_ok hw hconvert] at htransform
      rw [hL.outcome_show htransform hback', ← hprint]

end ScriptLanguage

/-! ### The language of scripts -/

open Runner in
/-- **The language of scripts passes values on** as they are. -/
theorem Script.language_passes : Script.language.Passes where
  literal _ _ := rfl
  apply host f t := by
    have hname : lookup [] [] [] f.name = .ok (.builtin (.offered f)) := by cases f <;> rfl
    show host.eval (lookup [] [] []) (.call f.name [t] []) =
      host.eval (lookup [] [] []) t >>= fun v => host.offers f [v] []
    rw [Host.eval, hname]
    simp only [Host.evalAll, Host.evalKeywords, bind_assoc, pure_bind]
    rfl
  text _ _ _ := rfl
  argument _ _ _ := rfl

open Runner in
/-- A script of that language sees a pair when it normalizes a text that can be read. -/
theorem Script.answer_normalize {text : Text} {e : Sexp} {r : Runner}
    (h : (r.compiler.reader.read text).2 = .ok e) :
    answer (Script.language.value (Script.language.call .normalize
        (Script.language.literal text))) r = .ok (.tuple [.string e.print, .hole]) := by
  rw [answer, Script.language_passes.outcome_normalize, ← answer,
    Script.language_presents.answer_normalize, Runner.answer_normalize, h]
  rfl

open Runner in
/-- **A script of that language cannot normalize again** what it has normalized, since what it sees
of an answer is a pair. -/
theorem Script.normalize_normalize (text : Text) (r : Runner) :
    answer (Script.language.value (Script.language.call .normalize
        (Script.language.call .normalize (Script.language.literal text)))) r
      = .error (.failed (.other "not a tuple: string")) := by
  have hL := Script.language_passes
  obtain ⟨items, hpair⟩ : ∃ items, presented (answer (normalize text) r) = .tuple items := by
    rcases answer (normalize text) r with f | p
    · cases f <;> exact ⟨_, rfl⟩
    · exact ⟨_, rfl⟩
  have hfirst := Script.language_presents.answer_normalize text r
  rw [hpair, answer, ← hL.outcome_normalize] at hfirst
  exact answer_of_outcome (hL.outcome_call_of_ok .normalize (Prod.ext hfirst rfl))

open Runner in
/-- Normalizing `(f x)`, and then what a script sees of the answer. -/
theorem Script.normalize_small_call :
    answer (Script.language.value (Script.language.call .normalize
        (Script.language.literal "(f x)"))) {} = .ok (.tuple [.string "(f x)", .hole]) ∧
      answer (Script.language.value (Script.language.call .normalize
        (Script.language.call .normalize (Script.language.literal "(f x)")))) {}
          = .error (.failed (.other "not a tuple: string")) := by
  have hread : (({} : Runner).compiler.reader.read "(f x)").2
      = .ok (.list [.ofName "f", .ofName "x"]) := by decide +kernel
  exact ⟨Script.answer_normalize hread, Script.normalize_normalize "(f x)" {}⟩

namespace Runner

open Sexp

/-- **Scripts keep trees intact**, in every language that passes values on as they are. The value of
an expression that was read is the expression again, so that showing what was read gives the text
that normalizing gives; what a script sees of that text depends on how its language presents
answers. A script that shows the transformed expression fails where the compiler does, and otherwise
shows what the compiler would print. It leaves behind the same compiler. -/
theorem scripts_keep_trees {L : ScriptLanguage} (hL : L.Passes) (text : Text) (r : Runner) :
    (∀ strict e, (Reader.read ⟨.standard, strict⟩ text).2 = .ok e →
      ∃ v e', Value.ofSexp? e = some v ∧ v.toSexp = .ok e' ∧ e'.equal e = true) ∧
    (∀ e, (r.compiler.reader.read text).2 = .ok e →
      answer (L.value (L.call .display (L.call .read (L.literal text)))) r
          = .ok (.string e.print) ∧
        answer (normalize text) r = .ok e.print ∧
        ∀ present, L.Presents present →
          answer (L.value (L.call .normalize (L.literal text))) r = present (.ok e.print)) ∧
    outcome (L.value (L.call .display (L.call .transform (L.call .read (L.literal text))))) r =
      match Compiler.outcome (Compiler.compile text) r.compiler with
      | (.ok out, c) => (.ok (.string out.print), { r with compiler := c })
      | (.error f, c) => (.error (.failed f), { r with compiler := c }) := by
  refine ⟨fun strict e h => ?_, fun e h => ?_, hL.show_transform_read text r⟩
  · have he := Reader.legible_of_read rfl (Prod.ext rfl h)
    obtain ⟨v, hv, hback⟩ := he.tree_returnsAs
    exact ⟨v, e, hv, hback, he.equal_self⟩
  · have hnormal : answer (normalize text) r = .ok e.print := by
      rw [answer_normalize, h]
      rfl
    refine ⟨hL.show_read h, hnormal, fun present hpresent => ?_⟩
    rw [answer, hL.outcome_normalize, ← answer, hpresent.answer_normalize, hnormal]

/-- A program with a string literal, a number, a symbol that begins with a quote and a variable that
is renamed. -/
theorem scripts_keep_trees_open_quote :
    let r : Runner := { compiler := { settings := { alphatize := true, halt := "done" } } }
    let text : Text := "(f \"a b\" 12 (lambda (x) (x \"c)))"
    let L := Script.language
    answer (L.value (L.call .display (L.call .read (L.literal text)))) r
        = .ok (.string text) ∧
      answer (normalize text) r = .ok text ∧
      answer (L.value (L.call .normalize (L.literal text))) r
        = .ok (.tuple [.string text, .hole]) ∧
      answer (L.value (L.call .display (L.call .transform (L.call .read (L.literal text))))) r
        = .ok (.string "(f \"a b\" 12 (lambda (x0 k0) (x0 \"c k0)) done)") := by
  intro r text L
  have hsource : (Compiler.outcome (Compiler.read text) r.compiler).1.toOption.map Sexp.print
      = some text := by decide +kernel
  have htarget : (Compiler.outcome (Compiler.compile text) r.compiler).1.toOption.map Sexp.print
      = some (ofString "(f \"a b\" 12 (lambda (x0 k0) (x0 \"c k0)) done)") := by decide +kernel
  obtain ⟨e, hread, hsource⟩ := Option.map_eq_some_iff.1 hsource
  obtain ⟨out, hout, htarget⟩ := Option.map_eq_some_iff.1 htarget
  obtain ⟨c₁, hread⟩ := Compiler.outcome_of_toOption hread
  obtain ⟨c₂, hout⟩ := Compiler.outcome_of_toOption hout
  obtain ⟨-, hshow, htransform⟩ := scripts_keep_trees Script.language_passes text r
  obtain ⟨hshow, hnormal, hpresented⟩ := hshow e (Compiler.read_of_outcome hread)
  rw [hsource] at hshow hnormal hpresented
  refine ⟨hshow, hnormal, hpresented _ Script.language_presents, ?_⟩
  rw [hout] at htransform
  rw [answer_of_outcome htransform, htarget]

/-- Showing `(f x)` once it is read gives a string, and normalizing it a pair. -/
theorem scripts_show_small_call :
    answer (Script.language.value (Script.language.call .display
        (Script.language.call .read (Script.language.literal "(f x)")))) {}
          = .ok (.string "(f x)") ∧
      answer (Script.language.value (Script.language.call .normalize
        (Script.language.literal "(f x)"))) {} = .ok (.tuple [.string "(f x)", .hole]) := by
  have hread : (({} : Runner).compiler.reader.read "(f x)").2
      = .ok (.list [.ofName "f", .ofName "x"]) := by decide +kernel
  exact ⟨Script.language_passes.show_read hread, Script.answer_normalize hread⟩

end Runner

end PassingStyle
