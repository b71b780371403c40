import PassingStyle.Proofs.Meaning.Reflection
import PassingStyle.Proofs.Meaning.Renaming
import PassingStyle.Proofs.Meaning.Silence

/-!
# Compiled programs keep their meaning

A compiler that renames variables turns a program into a converted program that comes to
the same: the same value if it is no closure, the same calls of external procedures, and
the same values of the global variables that the program refers to. It does not matter
whether one starts from the program or from its conversion. A program that is a function
is converted to a function, and then the same is true of what the two answer.

There is one exception, and it is a defect: the renaming may call a recursive binding
around the end of the program like the final continuation. Then the converted program
never comes to its end. `Compiler.convert_preserves_iff` says that this is the only
exception.
-/

namespace PassingStyle

open Target (Reaches StopsIn Config)

/-! ## Whole programs -/

namespace Setting

variable {S : Setting} {W : World} {f : Form} {names xs : List Text} {out : Sexp}
  {o : Observation}

/-- In the beginning the stores are related. -/
theorem StoreRel.start (S : Setting) (W : World) :
    S.StoreRel W.start (Target.start W S.halt) where
  bound _ _ := rfl
  cell x n _ hhalt := by
    have hcell : (Target.start W S.halt).cell x n = .datum (W.globals x) := if_neg hhalt
    rw [hcell]
    exact .datum _
  trace := rfl

/-- A program meets its code if it does not mention the final continuation. -/
theorem Meets.start (htidy : S.Tidy [f]) (hfresh : S.Fresh names) (hfree : S.halt ∉ f.free)
    (W : World) :
    S.Meets [f] names Env.global Env.global W.start (Target.start W S.halt) where
  tidy := htidy
  fresh := hfresh
  agree := by
    refine ⟨fun _ _ => rfl, fun hin => absurd ?_ hfree, rfl⟩
    simpa only [Form.freeAll, List.append_nil] using hin
  store := .start S W

/-- The final continuation is ready if nothing around the end of the program is called
like it. -/
theorem Ready.start (hfresh : S.Fresh names) (hscopes : S.halt ∉ f.scopes) (W : World) :
    S.Ready (.symbol S.halt) (f.scopes ++ names) Env.global (Target.start W S.halt) where
  receiver := .symbol S.halt_keyword
  kept k hk := by
    cases hk
    exact Or.inr ⟨rfl, rfl⟩
  outside k hk hin := by
    cases hk
    rcases List.mem_append.1 hin with hin | hin
    · exact hscopes hin
    · exact S.halt_not_drawn (hfresh.mem _ hin)

/-- Related values look the same. -/
theorem ValueRel.datum?_eq {v : Form.Value} {w : Target.Value} (h : S.ValueRel v w) :
    w.datum? = v.datum? := by
  cases h <;> rfl

/-- Related stores look the same. -/
theorem StoreRel.observe_eq {m : Store Form.Value} {m' : Store Target.Value} {v : Form.Value}
    {w : Target.Value} (h : S.StoreRel m m') (hv : S.ValueRel v w)
    (hxs : ∀ x ∈ xs, x ∉ S.drawn ∧ x ≠ S.halt) :
    m'.observe Target.Value.datum? xs w = m.observe Form.Value.datum? xs v := by
  unfold Store.observe
  rw [hv.datum?_eq, h.trace]
  congr 1
  refine List.map_congr_left fun x hx => ?_
  obtain ⟨hdrawn, hhalt⟩ := hxs x hx
  exact (h.cell x 0 hdrawn fun heq => hhalt heq.1).datum?_eq

/-- What is handed to the final continuation is the end. -/
theorem reaches_done {s : Config} {v : Target.Value} {m : Store Target.Value}
    (h : Reaches W s (.call .halt [v] m)) : Reaches W s (.done v m) :=
  h.trans (.step rfl)

/-- **A program that comes to its end does so when it is converted.** -/
theorem gives_of_gives (himage : Image f (.symbol S.halt) names out) (htidy : S.Tidy [f])
    (hfresh : S.Fresh names) (hfree : S.halt ∉ f.free) (hscopes : S.halt ∉ f.scopes)
    (hxs : ∀ x ∈ xs, x ∉ S.drawn ∧ x ≠ S.halt) (h : f.Gives W xs o) :
    Target.Gives W S.halt xs out o := by
  obtain ⟨v, m, heval, rfl⟩ := h
  have hready := Ready.start hfresh hscopes W
  obtain ⟨ρ₁, m', v', κ, hreach, hκ, hv, hstore, hmoved⟩ :=
    heval.simulates himage (.start htidy hfresh hfree W) hready
  -- the final continuation is still what it was
  have hread : m'.cell S.halt (ρ₁ S.halt) = .halt :=
    (hmoved.read (hready.outside _ rfl) (hready.kept _ rfl)).trans (if_pos ⟨rfl, rfl⟩)
  rw [Target.atomValue_symbol, hread] at hκ
  cases hκ
  exact ⟨v', m', reaches_done hreach, hstore.observe_eq hv hxs⟩

/-- **A program and its conversion come to the same.** -/
theorem gives_iff (himage : Image f (.symbol S.halt) names out) (htidy : S.Tidy [f])
    (hfresh : S.Fresh names) (hfree : S.halt ∉ f.free) (hscopes : S.halt ∉ f.scopes)
    (hxs : ∀ x ∈ xs, x ∉ S.drawn ∧ x ≠ S.halt) :
    f.Gives W xs o ↔ Target.Gives W S.halt xs out o := by
  refine ⟨gives_of_gives himage htidy hfresh hfree hscopes hxs, fun h => ?_⟩
  obtain ⟨w, m', hreach, rfl⟩ := h
  obtain ⟨n, hn⟩ := hreach
  obtain ⟨v, m, heval⟩ := S.reflects n himage (.start htidy hfresh hfree W)
    (.start hfresh hscopes W) ⟨w, m', hn⟩
  -- the machine has one end only, so it is the one of this evaluation
  obtain ⟨w', m₁', hreach', hobserve⟩ :=
    gives_of_gives himage htidy hfresh hfree hscopes hxs ⟨v, m, heval, rfl⟩
  obtain ⟨rfl, rfl⟩ := hreach'.done_unique ⟨n, hn⟩
  exact ⟨v, m, heval, hobserve.symm⟩

/-- **A function that answers does so when it is converted.** -/
theorem answers_of_answers (himage : AtomImage f names out) (htidy : S.Tidy [f])
    (hfresh : S.Fresh names) (hfree : S.halt ∉ f.free)
    (hxs : ∀ x ∈ xs, x ∉ S.drawn ∧ x ≠ S.halt) {ds : List Datum} (h : f.Answers W xs ds o) :
    Target.Answers W S.halt xs out ds o := by
  obtain ⟨v, m, happly, rfl⟩ := h
  have hmeets := Meets.start htidy hfresh hfree W
  obtain ⟨fn, hfn, hrel⟩ := himage.value htidy hfresh
    (hmeets.agree.subset fun x hx => List.mem_append_left _ hx) hmeets.store
  obtain ⟨v', m', hreach, hv, hstore, _⟩ :=
    happly.simulates hrel (ValueRel.data_left.2 rfl) hmeets.store .halt
  exact ⟨fn, v', m', hfn, reaches_done hreach, hstore.observe_eq hv hxs⟩

/-- **A function and its conversion answer the same.** -/
theorem answers_iff (himage : AtomImage f names out) (htidy : S.Tidy [f])
    (hfresh : S.Fresh names) (hfree : S.halt ∉ f.free)
    (hxs : ∀ x ∈ xs, x ∉ S.drawn ∧ x ≠ S.halt) {ds : List Datum} :
    f.Answers W xs ds o ↔ Target.Answers W S.halt xs out ds o := by
  refine ⟨answers_of_answers himage htidy hfresh hfree hxs, fun h => ?_⟩
  obtain ⟨fn, w, m', hfn, hreach, rfl⟩ := h
  obtain ⟨n, hn⟩ := hreach
  have hmeets := Meets.start htidy hfresh hfree W
  obtain ⟨fn', hfn', hrel⟩ := himage.value htidy hfresh
    (hmeets.agree.subset fun x hx => List.mem_append_left _ hx) hmeets.store
  obtain rfl := Option.some.inj (hfn.symm.trans hfn')
  obtain ⟨v, m, happly⟩ := apply_of_stops (fun j _ => S.reflects j) hrel
    (ValueRel.data_left.2 rfl) hmeets.store ⟨w, m', hn⟩
  obtain ⟨fn', w', m₁', hfn', hreach', hobserve⟩ :=
    answers_of_answers himage htidy hfresh hfree hxs ⟨v, m, happly, rfl⟩
  obtain rfl := Option.some.inj (hfn.symm.trans hfn')
  obtain ⟨rfl, rfl⟩ := hreach'.done_unique ⟨n, hn⟩
  exact ⟨v, m, happly, hobserve.symm⟩

end Setting

/-! ## The compiler -/

/-- **The meaning of a program is kept** by a converted program with the final
continuation `halt`. -/
def Form.KeptBy (W : World) (halt : Text) (out : Sexp) : Form → Prop
  | lambda params first rest => ∀ ds o,
    (lambda params first rest).Answers W (lambda params first rest).free ds o ↔
      Target.Answers W halt (lambda params first rest).free out ds o
  | f => ∀ o, f.Gives W f.free o ↔ Target.Gives W halt f.free out o

/-- What it means for a program that is no function. -/
theorem Form.keptBy_iff {W : World} {halt : Text} {out : Sexp} {f : Form}
    (h : ∀ params first rest, f ≠ .lambda params first rest) :
    f.KeptBy W halt out ↔ ∀ o, f.Gives W f.free o ↔ Target.Gives W halt f.free out o := by
  cases f with
  | lambda params first rest => exact absurd rfl (h params first rest)
  | _ => rfl

/-- **The setting of a program** whose names were drawn with its symbols and the final
continuation reserved. -/
def Setting.ofDraws (isPrimitive : Text → Bool) {t t' : NameTable} {e : Sexp} {halt : Text}
    {names : List Text}
    (hdraws : Draws (t.reserve programNames (Sexp.symbolsList [e, .symbol halt])) names t')
    (hkeyword : Keyword.of? (.symbol halt) = none) (hundefined : halt ≠ undefinedName) :
    Setting where
  isPrimitive := isPrimitive
  drawn := names
  halt := halt
  numbered := hdraws.numbered
  halt_keyword := hkeyword
  halt_not_drawn hin := hdraws.fresh halt hin
    (NameTable.mem_taken_reserve.2 (Or.inr ⟨rfl, by simp⟩))
  halt_ne_undefined := hundefined

/-- The form of a renamed program is tidy. -/
theorem Setting.Tidy.ofDraws {isPrimitive : Text → Bool} {e e' : Sexp} {t t₁ t₂ : NameTable}
    {g : Form} {halt : Text} {names : List Text}
    (h : (alphatize e).outcome t = (.ok e', t₁)) (hg : Form.analyse isPrimitive e' = .ok g)
    (hdraws : Draws (t₁.reserve programNames (Sexp.symbolsList [e', .symbol halt])) names t₂)
    (hkeyword : Keyword.of? (.symbol halt) = none) (hundefined : halt ≠ undefinedName) :
    (Setting.ofDraws isPrimitive hdraws hkeyword hundefined).Tidy [g] := by
  obtain ⟨hvalid, hwritten⟩ := Form.analyse_eq_ok isPrimitive e' g hg
  obtain ⟨hclean, hbinders⟩ := alphatize_clean h hg
  have hsymbol : ∀ x ∈ g.symbols, x ∉ names := by
    intro x hx hin
    rw [Form.symbols, hwritten] at hx
    refine hdraws.fresh x hin (NameTable.mem_taken_reserve.2 (Or.inr ⟨rfl, ?_⟩))
    exact List.mem_append_left _ hx
  have hone : Form.bindersAll [g] = g.binders ∧ Form.freeAll [g] = g.free := by
    simp only [Form.bindersAll, Form.freeAll, List.append_nil, and_self]
  refine ⟨List.forall_mem_singleton.2 hvalid, ?_, ?_, ?_, ?_⟩
  · rw [hone.1]
    exact hclean.nodup
  · rw [hone.1, hone.2]
    exact hclean.apart
  · rw [hone.1]
    exact fun x hx => ⟨hsymbol x (Form.mem_symbols_of_mem_binders hx),
      (hbinders x hx).1.ne_undefined⟩
  · rw [hone.2]
    exact fun x hx => hsymbol x (Form.mem_symbols_of_mem_free hx)

/-- The variables of a program were not drawn when its renamed form was converted. -/
theorem not_drawn_of_mem_free {isPrimitive : Text → Bool} {e e' : Sexp} {t t₁ t₂ : NameTable}
    {f g : Form} {es : List Sexp} {names : List Text}
    (h : (alphatize e).outcome t = (.ok e', t₁)) (hf : f.toSexp = e)
    (hg : Form.analyse isPrimitive e' = .ok g)
    (hdraws : Draws (t₁.reserve programNames (Sexp.symbolsList es)) names t₂) :
    ∀ x ∈ f.free, x ∉ names := by
  intro x hx hin
  obtain ⟨_, _, _, _, hdraws'⟩ := alphatize_ok h hg
  have hsymbol := Form.mem_symbols_of_mem_free hx
  rw [Form.symbols, hf] at hsymbol
  have htaken : (x, programNames) ∈ t₁.taken := hdraws'.taken_subset
    (NameTable.mem_taken_reserve.2 (Or.inr ⟨rfl, List.mem_append_left _ hsymbol⟩))
  exact hdraws.fresh x hin (NameTable.mem_taken_reserve.2 (Or.inl htaken))

namespace Compiler

/-- **When a compiled program keeps its meaning.** Let a compiler rename and convert a
program in which no keyword and no primitive is bound. Let its final continuation be no
keyword, not `undef` and no variable of the program, and let none of the new names be a
primitive. Then the converted program keeps the meaning of the program in a world, unless
the final continuation is called like a recursive binding around the end of the renamed
program, and the program comes to its end in that world. -/
theorem convert_preserves_iff {c c' : Compiler} {e out : Sexp} {f : Form}
    (halpha : c.settings.alphatize = true) (h : outcome (convert e) c = (.ok out, c'))
    (hf : Form.analyse c.settings.primitives.contains e = .ok f)
    (hplain : ∀ x ∈ f.binders, Plain c.settings.primitives.contains x)
    (hkeyword : Keyword.of? (.symbol c.settings.finalCont) = none)
    (hundefined : c.settings.finalCont ≠ undefinedName)
    (hfree : c.settings.finalCont ∉ f.free) :
    ∃ e' t g, (PassingStyle.alphatize e).outcome c.names = (.ok e', t) ∧
      Form.analyse c.settings.primitives.contains e' = .ok g ∧
      ((∀ x ∈ g.binders, c.settings.primitives.contains x = false) → ∀ W : World,
        (f.KeptBy W c.settings.finalCont out ↔
          (c.settings.finalCont ∈ g.scopes → ¬ ∃ o, f.Gives W f.free o))) := by
  obtain ⟨e', t, hrename, hprogram⟩ := convert_ok halpha h
  obtain ⟨g, hg, hout⟩ := Convert.program_ok hprogram
  refine ⟨e', t, g, hrename, hg, fun hprimitive W => ?_⟩
  obtain ⟨hvalid, hwritten⟩ := Form.analyse_eq_ok _ e f hf
  obtain ⟨hvalid', _⟩ := Form.analyse_eq_ok _ e' g hg
  obtain ⟨names, hdraws, himage⟩ := hvalid'.convertProgram_image c.settings.finalCont
    (t.reserve programNames (Sexp.symbolsList [e', .symbol c.settings.finalCont]))
  rw [hout] at hdraws himage
  have halike := alphatize_alike hrename hf hg hplain hprimitive
  have hfree' : c.settings.finalCont ∉ g.free := by
    obtain ⟨_, hrenamed, _⟩ := alphatize_renamed hrename hf hg hplain hprimitive
    intro hin
    obtain ⟨s, hs, heq⟩ := hrenamed.free _ hin
    exact hfree (heq ▸ hs)
  let S := Setting.ofDraws c.settings.primitives.contains hdraws hkeyword hundefined
  have htidy : S.Tidy [g] := .ofDraws hrename hg hdraws hkeyword hundefined
  have hfresh : S.Fresh names := ⟨hdraws.nodup, fun x hx => hx⟩
  have hxs : ∀ x ∈ f.free, x ∉ S.drawn ∧ x ≠ S.halt := by
    refine fun x hx => ⟨not_drawn_of_mem_free hrename hwritten hg hdraws x hx, ?_⟩
    rintro rfl
    exact hfree hx
  rcases himage with ⟨⟨params, first, rest, rfl⟩, himage⟩ | ⟨hne, himage⟩
  · -- a function has no end that could be captured
    obtain ⟨params', first', rest', rfl⟩ := halike.eq_lambda
    refine ⟨fun _ hin => absurd hin (by rw [Form.scopes]; exact List.not_mem_nil),
      fun _ ds o => ?_⟩
    exact halike.answers_iff.trans (S.answers_iff himage htidy hfresh hfree' hxs)
  · rw [Form.keptBy_iff (halike.ne_lambda hne)]
    by_cases hscopes : c.settings.finalCont ∈ g.scopes
    -- the end was captured, and the converted program comes to none at all
    · obtain ⟨_, hbinders⟩ := alphatize_clean hrename hg
      have hsilent := himage.not_reaches_done hvalid' hdraws.numbered
        (hbinders _ (Form.mem_binders_of_mem_scopes hscopes)).1 hscopes hfree' W
      refine ⟨fun hkept _ ⟨o, ho⟩ => ?_, fun hnot o => ⟨fun ho => ?_, fun ho => ?_⟩⟩
      · obtain ⟨v, m, hreach, _⟩ := (hkept o).1 ho
        exact hsilent v m hreach
      · exact absurd ⟨o, ho⟩ (hnot hscopes)
      · obtain ⟨v, m, hreach, _⟩ := ho
        exact absurd hreach (hsilent v m)
    · refine ⟨fun _ hin => absurd hin hscopes, fun _ o => ?_⟩
      exact halike.gives_iff.trans (S.gives_iff himage htidy hfresh hfree' hscopes hxs)

/-- The program `(letrec ((x #t)) x)` that ends in `x0` becomes
`(letrec ((x0 #t)) (x0 x0))`. The program comes to its end in every world, but the
converted program does not. -/
theorem convert_loses_end :
    ¬ (Form.letrec [("x", .constant (.bool true))] (.constant (.ofName "x")) []).KeptBy
      { globals := fun _ => .undefined, delta := fun _ _ => none, oracle := fun _ _ => none } "x0"
      (Target.letrec [.list [.ofName "x0", .bool true]]
        (Target.pass (.ofName "x0") (.ofName "x0"))) := by
  have hconvert : outcome (convert (.list [Keyword.letrec.sexp,
      .list [.list [.ofName "x", .bool true]], .ofName "x"]))
      { settings := { alphatize := true, halt := "x0" } } = (.ok (Target.letrec
        [.list [.ofName "x0", .bool true]] (Target.pass (.ofName "x0") (.ofName "x0"))), _) := rfl
  obtain ⟨e', t, g, hrename, hg, hiff⟩ := convert_preserves_iff rfl hconvert rfl
    (List.forall_mem_singleton.2 ⟨rfl, rfl⟩) rfl (by decide) (by decide)
  cases hrename
  cases hg
  intro hkept
  exact (hiff (List.forall_mem_singleton.2 rfl) _).1 hkept List.mem_cons_self
    ⟨_, _, _, .letrec (.last (.atom rfl)), rfl⟩

end Compiler

end PassingStyle
