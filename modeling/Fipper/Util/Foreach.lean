import Fipper.Lib.Text
import Fipper.Util.Macros
import Mathlib.Data.Fintype.EquivFin
import Mathlib.Logic.Function.Iterate

/-!
# The loop over a sequence

What `FP_SEQ_FOREACH` expands to.

* `sequence`, `guide` : the two forms of the list of elements, and `expands_seqToImprovedGuide` from one to
  the other;
* `documented` : the loop as the comment of the macro says it; `looped` : what the macros make of it;
* `expands_seqForeach` : `FP_SEQ_FOREACH` expands to `looped`;
* `seqForeach_documented_iff` : when that is the documented loop.
-/

namespace Fipper.Macros

open Lib.Preprocessor

/-- What an element of a sequence can be. -/
structure Element (macros : String → Option Macro) (uses : List String) (e : Text) : Prop where
  balanced : Balanced e
  inert : Inert macros uses e

/-- What a single argument can be. -/
structure Value (macros : String → Option Macro) (uses : List String) (a : Text) : Prop where
  isArg : IsArg a
  inert : Inert macros uses a

theorem Element.mono {macros : String → Option Macro} {uses quiet : List String} {e : Text}
    (h : Element macros quiet e) (hsub : quiet ⊆ uses) : Element macros uses e := ⟨h.balanced, h.inert.mono hsub⟩

theorem Value.mono {macros : String → Option Macro} {uses quiet : List String} {a : Text}
    (h : Value macros quiet a) (hsub : quiet ⊆ uses) : Value macros uses a := ⟨h.isArg, h.inert.mono hsub⟩

/-- `(e0)(e1)`. -/
def sequence : List Text → Text
  | [] => []
  | e :: es => .lparen :: (e ++ .rparen :: sequence es)

/-- `)e0) )e1)`. -/
def closed : List Text → Text
  | [] => []
  | e :: es => .rparen :: (e ++ .rparen :: closed es)

/-- `)e0) )e1) FP_IMPROVED_GUIDE_END_MARK)`. -/
def guide (es : List Text) : Text := closed es ++ [.word "FP_IMPROVED_GUIDE_END_MARK", .rparen]

/-! ## The guide -/

/-- A parenthesis to be closed by the next scan. -/
def rparenthesis : Text := [.word "FP_RPARENTHESIS", .lparen, .rparen]

/-- The elements of the guide before that scan. -/
def deferred : List Text → Text
  | [] => []
  | e :: es => rparenthesis ++ (e ++ (rparenthesis ++ deferred es))

/-- The macro that is named behind the last element, in turns. -/
def lastName : String → String → List Text → String
  | name, _, [] => name
  | name, other, _ :: es => lastName other name es

/-- The macros that take the elements of a sequence, and those they name. -/
def guideNames : List String :=
  ["FP_SEQ_TO_IMPROVED_GUIDE_A", "FP_SEQ_TO_IMPROVED_GUIDE_B", "FP_SEQ_TO_IMPROVED_GUIDE_A_END",
    "FP_SEQ_TO_IMPROVED_GUIDE_B_END", "FP_RPARENTHESIS", "FP_EMPTY"]

/-- The macros that turn a sequence into a guide. -/
def seqToGuideNames : List String :=
  ["FP_SEQ_TO_IMPROVED_GUIDE", "FP_SEQ_TO_IMPROVED_GUIDE_END", "FP_SEQ_TO_IMPROVED_GUIDE_END_"] ++ guideNames

/-- The macros that are replaced in a loop. -/
def loopNames : List String :=
  ["FP_SEQ_FOREACH", "FP_IMPROVED_GUIDE_FOREACH", "FP_IMPROVED_GUIDE_FOREACH_FIRST",
    "FP_IMPROVED_GUIDE_FOREACH_FIRST_", "FP_IMPROVED_GUIDE_FOREACH_FIRST_FP_IMPROVED_GUIDE_END_MARK",
    "FP_IMPROVED_GUIDE_FOREACH_FIRST_B", "FP_IMPROVED_GUIDE_FOREACH_A", "FP_IMPROVED_GUIDE_FOREACH_A_",
    "FP_IMPROVED_GUIDE_FOREACH_A_FP_IMPROVED_GUIDE_END_MARK", "FP_IMPROVED_GUIDE_FOREACH_B"] ++ seqToGuideNames

/-- The header's macros are defined, and the others that are used are not the loop's. -/
structure Setting (macros : String → Option Macro) (uses : List String) : Prop extends Header macros where
  other : ∀ name ∈ uses, name ∉ loopNames

/-- Of the macros of the loop and those used only `busy` are active, which are the loop's. -/
structure Scope (uses busy active : List String) (ts : Text) : Prop where
  only : Busy (loopNames ++ uses) busy active ts
  loop : busy ⊆ loopNames

variable {macros : String → Option Macro} {uses active : List String} {rest out : Text} {es : List Text}

section Scope
variable {busy : List String} {ts : Text} {name : String}

theorem Scope.idle (h : Scope uses busy active ts) (hname : name ∈ loopNames) (hbusy : name ∉ busy) :
    name ∉ active ++ doneNames ts := h.only.idle (List.mem_append_left _ hname) hbusy

theorem Scope.free (h : Scope uses busy active ts) (setting : Setting macros uses) : Free uses active ts :=
  h.only.free (List.subset_append_right _ _) fun name hname hbusy => setting.other name hname (h.loop hbusy)

theorem Scope.done (h : Scope uses busy active ts) (name : String) (hname : name ∈ loopNames) :
    Scope uses (name :: busy) active (.done name :: ts) :=
  ⟨h.only.done name, List.cons_subset.mpr ⟨hname, h.loop⟩⟩

theorem Scope.congr {ts' : Text} (h : Scope uses busy active ts) (hdone : doneNames ts' = doneNames ts) :
    Scope uses busy active ts' := ⟨h.only.congr hdone, h.loop⟩

theorem Scope.element {quiet : List String} {e : Text} (h : Scope uses busy active ts) (he : Inert macros quiet e) :
    Scope uses busy active (e ++ .rparen :: ts) := h.congr (by simp [doneNames, doneNames_of_inert he])

theorem Scope.call {as : List Text} (h : Scope uses busy active ts) (name : String) (has : ∀ a ∈ as, IsArg a) :
    Scope uses busy active (invoke [.word name] as ts) := h.congr (doneNames_invoke rfl has)

theorem Scope.scan (h : Scope uses busy active ts) : Scope uses busy (active ++ doneNames ts) [] :=
  ⟨h.only.scan, h.loop⟩

/-- Inert arguments are scanned as they are. -/
theorem Scope.inert (h : Scope uses busy active ts) (setting : Setting macros uses) {args : List Text}
    (hargs : ∀ a ∈ args, Inert macros uses a) :
    List.Forall₂ (Expands macros (active ++ doneNames ts)) args args :=
  forall₂_inert hargs (h.free setting)

end Scope

theorem sequence_isArg (hes : ∀ e ∈ es, Element macros uses e) : IsArg (sequence es) := by
  induction es with
  | nil => rfl
  | cons e es ih =>
      have he := (hes e (List.mem_cons_self ..)).balanced.parenthesised
      have happend := he.append (ih fun x hx => hes x (List.mem_cons_of_mem _ hx))
      simpa [sequence] using happend

theorem sequence_inert (hes : ∀ e ∈ es, Element macros uses e) : Inert macros uses (sequence es) := by
  induction es with
  | nil => trivial
  | cons e es ih =>
      have hrest := ih fun x hx => hes x (List.mem_cons_of_mem _ hx)
      exact (hes e (List.mem_cons_self ..)).inert.append (b := .rparen :: sequence es) hrest (by simp)

theorem doneNames_sequence (hes : ∀ e ∈ es, Element macros uses e) : doneNames (sequence es) = [] :=
  doneNames_of_inert (sequence_inert hes)

theorem doneNames_deferred (hes : ∀ e ∈ es, Element macros uses e) : doneNames (deferred es) = [] := by
  induction es with
  | nil => rfl
  | cons e es ih =>
      have he := doneNames_of_inert (hes e (List.mem_cons_self ..)).inert
      simpa [deferred, rparenthesis, doneNames, he] using ih fun x hx => hes x (List.mem_cons_of_mem _ hx)

theorem deferred_balanced (hes : ∀ e ∈ es, Element macros uses e) : Balanced (deferred es) := by
  induction es with
  | nil => rfl
  | cons e es ih =>
      have he := (hes e (List.mem_cons_self ..)).balanced
      have hparen : Balanced rparenthesis := by decide
      exact hparen.append (he.append (hparen.append (ih fun x hx => hes x (List.mem_cons_of_mem _ hx))))

section Guide
variable {busy : List String}

/-- A parenthesis is not closed in the first scan. -/
theorem expands_deferredRparenthesis (setting : Setting macros uses) (hscope : Scope uses busy active rest)
    (hbusy : ∀ name ∈ ["FP_RPARENTHESIS", "FP_EMPTY"], name ∉ busy) (h : Expands macros active rest out) :
    Expands macros active (deferredRparenthesis ++ rest) (rparenthesis ++ out) := by
  have hrparenthesis : macros "FP_RPARENTHESIS" = some fpRparenthesis :=
    setting.defines fpRparenthesis (by simp [macrosHpp])
  have hempty : macros "FP_EMPTY" = some fpEmpty := setting.defines fpEmpty (by simp [macrosHpp])
  refine Expands.uncalled hrparenthesis rfl (hscope.idle (by decide) (hbusy _ (by simp))) (by simp [dropDone]) ?_
  refine expands_object hempty rfl (hscope.idle (by decide) (hbusy _ (by simp))) rfl ?_
  exact .done (.fixed rfl (.fixed rfl h))

/-- It is in the second. -/
theorem expands_rparenthesis (setting : Setting macros uses) (hscope : Scope uses busy active rest)
    (hbusy : "FP_RPARENTHESIS" ∉ busy) (h : Expands macros active rest out) :
    Expands macros active (rparenthesis ++ rest) (.rparen :: out) := by
  have hrparenthesis : macros "FP_RPARENTHESIS" = some fpRparenthesis :=
    setting.defines fpRparenthesis (by simp [macrosHpp])
  refine expands_call (m := fpRparenthesis) hrparenthesis rfl (hscope.idle (by decide) hbusy) rfl
    ⟨[[]], rfl, rfl⟩ .nil rfl ?_
  exact .fixed rfl (.done h)

/-- The two macros that make the guide, in turns. -/
def Turn (a b : String) : Prop :=
  a = "FP_SEQ_TO_IMPROVED_GUIDE_A" ∧ b = "FP_SEQ_TO_IMPROVED_GUIDE_B" ∨
    a = "FP_SEQ_TO_IMPROVED_GUIDE_B" ∧ b = "FP_SEQ_TO_IMPROVED_GUIDE_A"

theorem Turn.symm {a b : String} (h : Turn a b) : Turn b a := (Or.symm h).imp And.symm And.symm

theorem Turn.defined {a b : String} (h : Turn a b) (header : Header macros) : macros a = some (guideStep a b) := by
  rcases h with ⟨rfl, rfl⟩ | ⟨rfl, rfl⟩
  · exact header.defines fpSeqToImprovedGuideA (by simp [macrosHpp])
  · exact header.defines fpSeqToImprovedGuideB (by simp [macrosHpp])

theorem Turn.names {a b : String} (h : Turn a b) :
    a ≠ b ∧ a ∈ guideNames ∧ a ∈ loopNames ∧ a ∉ ["FP_RPARENTHESIS", "FP_EMPTY"] := by
  rcases h with ⟨rfl, rfl⟩ | ⟨rfl, rfl⟩ <;> decide

theorem Turn.defined_end {a b : String} (h : Turn a b) (header : Header macros) :
    macros (a ++ "_END") = some (object (a ++ "_END") []) ∧ a ++ "_END" ∈ loopNames := by
  rcases h with ⟨rfl, rfl⟩ | ⟨rfl, rfl⟩
  · exact ⟨header.defines fpSeqToImprovedGuideAEnd (by simp [macrosHpp]), by decide⟩
  · exact ⟨header.defines fpSeqToImprovedGuideBEnd (by simp [macrosHpp]), by decide⟩

theorem Turn.last {a b : String} (h : Turn a b) : ∀ es, ∃ c, Turn (lastName a b es) c
  | [] => ⟨b, h⟩
  | _ :: es => Turn.last h.symm es

/-- The macro behind the last element is not called. -/
theorem expands_guideStep (setting : Setting macros uses) (hes : ∀ e ∈ es, Element macros uses e)
    (hscope : Scope uses busy active []) (hbusy : ∀ name ∈ guideNames, name ∉ busy) {a b : String}
    (hturn : Turn a b) {ends : Text} (hends : ends = [] ∨ ends = [.done b]) :
    Expands macros active (.word a :: (ends ++ sequence es)) (deferred es ++ [.word (lastName a b es)]) := by
  induction es generalizing a b ends with
  | nil =>
      obtain ⟨hab, hguide, hloop, -⟩ := hturn.names
      have hb : a ∉ b :: busy := List.not_mem_cons_of_ne_of_not_mem hab (hbusy a hguide)
      rcases hends with rfl | rfl
      · exact .uncalled (hturn.defined setting.toHeader) rfl (hscope.idle hloop (hbusy a hguide)) (by decide)
          expands_nil
      · exact .uncalled (hturn.defined setting.toHeader) rfl
          ((hscope.done b hturn.symm.names.2.2.1).idle hloop hb) (by simp [dropDone, sequence]) (.done expands_nil)
  | cons e es ih =>
      obtain ⟨hab, hguide, hloop, hparen⟩ := hturn.names
      have hb : a ∉ b :: busy := List.not_mem_cons_of_ne_of_not_mem hab (hbusy a hguide)
      have he := hes e (List.mem_cons_self ..)
      have hes : ∀ x ∈ es, Element macros uses x := fun x hx => hes x (List.mem_cons_of_mem _ hx)
      have hdone := doneNames_of_inert he.inert
      have hseq := doneNames_sequence hes
      have hcall : dropDone (ends ++ sequence (e :: es)) = .lparen :: (e ++ .rparen :: sequence es) := by
        rcases hends with rfl | rfl <;> rfl
      have hactive : a ∉ active ++ doneNames (ends ++ sequence (e :: es)) := by
        rcases hends with rfl | rfl
        · exact (hscope.congr (by simp [sequence, doneNames, hdone, hseq])).idle hloop (hbusy a hguide)
        · have hends : doneNames ([.done b] ++ sequence (e :: es)) = doneNames [.done b] := by
            simp [sequence, doneNames, hdone, hseq]
          exact ((hscope.done b hturn.symm.names.2.2.1).congr hends).idle hloop hb
      have hnext : Scope uses (a :: busy) active (.done a :: sequence es) := (hscope.congr hseq).done a hloop
      have hidle : ∀ name ∈ ["FP_RPARENTHESIS", "FP_EMPTY"], name ∉ a :: busy := fun name hname =>
        List.not_mem_cons_of_ne_of_not_mem (fun heq => hparen (heq ▸ hname)) (hbusy name (by revert name; decide))
      refine expands_call (hturn.defined setting.toHeader) rfl hactive hcall (reads_balanced he.balanced)
        ((hscope.congr hseq).inert setting (by simpa using he.inert)) rfl ?_
      simp only [List.append_assoc, deferred]
      refine expands_deferredRparenthesis setting (hnext.congr ?_) hidle (.inert he.inert
        ((hnext.congr ?_).free setting) (by simp [deferredRparenthesis, dropDone])
        (expands_deferredRparenthesis setting (hnext.congr ?_) hidle (ih hes hturn.symm (.inr rfl))))
      · simp [doneNames, deferredRparenthesis, hdone]
      · simp [doneNames, deferredRparenthesis]
      · simp [doneNames]

/-- The second scan closes the parentheses. -/
theorem expands_deferred (setting : Setting macros uses) (hes : ∀ e ∈ es, Element macros uses e)
    (hscope : Scope uses busy active rest) (hbusy : "FP_RPARENTHESIS" ∉ busy) (h : Expands macros active rest out) :
    Expands macros active (deferred es ++ rest) (closed es ++ out) := by
  induction es with
  | nil => exact h
  | cons e es ih =>
      have he := hes e (List.mem_cons_self ..)
      have hes : ∀ x ∈ es, Element macros uses x := fun x hx => hes x (List.mem_cons_of_mem _ hx)
      have hdone := doneNames_of_inert he.inert
      have hdeferred := doneNames_deferred hes
      simp only [deferred, closed, List.append_assoc, List.cons_append]
      refine expands_rparenthesis setting (hscope.congr ?_) hbusy (.inert he.inert ((hscope.congr ?_).free setting)
        (by simp [rparenthesis, dropDone]) (expands_rparenthesis setting (hscope.congr ?_) hbusy (ih hes)))
      · simp [doneNames, rparenthesis, hdone, hdeferred]
      · simp [doneNames, rparenthesis, hdeferred]
      · simp [hdeferred]

/-- A sequence is turned into a guide, while `FP_SEQ_FOREACH` is replaced. -/
theorem expands_seqToImprovedGuide (setting : Setting macros uses) (hes : ∀ e ∈ es, Element macros uses e)
    (hscope : Scope uses ["FP_SEQ_FOREACH"] active []) :
    Expands macros active (invoke [.word "FP_SEQ_TO_IMPROVED_GUIDE"] [] (sequence es ++ [.rparen])) (guide es) := by
  have hseq := doneNames_sequence hes
  have hturn : Turn "FP_SEQ_TO_IMPROVED_GUIDE_A" "FP_SEQ_TO_IMPROVED_GUIDE_B" := .inl ⟨rfl, rfl⟩
  obtain ⟨c, hlast⟩ := hturn.last es
  generalize hname : lastName "FP_SEQ_TO_IMPROVED_GUIDE_A" "FP_SEQ_TO_IMPROVED_GUIDE_B" es = last at hlast
  have hguide := hscope.done "FP_SEQ_TO_IMPROVED_GUIDE" (by decide)
  have hend := hguide.done "FP_SEQ_TO_IMPROVED_GUIDE_END" (by decide)
  have hend_ := hend.done "FP_SEQ_TO_IMPROVED_GUIDE_END_" (by decide)
  -- the end mark, behind what the last macro leaves
  have hmark : Expands macros active (deferred es ++ .word (last ++ "_END") ::
      .done "FP_SEQ_TO_IMPROVED_GUIDE_END_" :: .done "FP_SEQ_TO_IMPROVED_GUIDE_END" ::
      .word "FP_IMPROVED_GUIDE_END_MARK" :: .rparen :: [.done "FP_SEQ_TO_IMPROVED_GUIDE"]) (guide es) := by
    refine expands_deferred setting hes (hend_.congr rfl) (by decide) ?_
    refine expands_object (hlast.defined_end setting.toHeader).1 rfl (hend_.idle ?_ ?_) rfl ?_
    · exact (hlast.defined_end setting.toHeader).2
    · rcases hlast with ⟨rfl, -⟩ | ⟨rfl, -⟩ <;> decide
    · exact .done (.done (.done (.word setting.endMark (.fixed rfl (.done expands_nil)))))
  -- the elements are expanded before they are handed on
  have hsteps : Expands macros (active ++ ["FP_SEQ_TO_IMPROVED_GUIDE"])
      (.word "FP_SEQ_TO_IMPROVED_GUIDE_A" :: sequence es) (deferred es ++ [.word last]) := by
    rw [← hname]
    exact expands_guideStep setting hes hguide.scan (by decide) hturn (.inl rfl)
  have hclosed : Expands macros (active ++ ["FP_SEQ_TO_IMPROVED_GUIDE_END", "FP_SEQ_TO_IMPROVED_GUIDE"])
      (deferred es ++ [.word last]) (closed es ++ [.word last]) := by
    refine expands_deferred setting hes (hend.scan.congr rfl) (by decide) ?_
    refine .uncalled (hlast.defined setting.toHeader) rfl (hend.scan.idle hlast.names.2.2.1 ?_) (by simp [dropDone])
      expands_nil
    rcases hlast with ⟨rfl, -⟩ | ⟨rfl, -⟩ <;> decide
  have hpaste : Expands macros active (invoke [.word "FP_SEQ_TO_IMPROVED_GUIDE_END_"] []
      ((deferred es ++ [.word last]) ++ .rparen :: .done "FP_SEQ_TO_IMPROVED_GUIDE_END" ::
        .word "FP_IMPROVED_GUIDE_END_MARK" :: .rparen :: [.done "FP_SEQ_TO_IMPROVED_GUIDE"])) (guide es) := by
    have hdone := doneNames_deferred hes
    have hword : Balanced [Token.word last] := rfl
    refine expands_invoke (setting.defines fpSeqToImprovedGuideEnd_ (by simp [macrosHpp])) rfl (List.forall_mem_nil _)
      ((hend.congr (by simp [doneNames, hdone])).idle (by decide) (by decide))
      (reads_balanced ((deferred_balanced hes).append hword)) (.cons hclosed .nil) (paste_word ..) ?_
    simpa using hmark
  have hscan : Expands macros active (invoke [.word "FP_SEQ_TO_IMPROVED_GUIDE_END"] []
      ((.word "FP_SEQ_TO_IMPROVED_GUIDE_A" :: sequence es) ++ .rparen ::
        .word "FP_IMPROVED_GUIDE_END_MARK" :: .rparen :: [.done "FP_SEQ_TO_IMPROVED_GUIDE"])) (guide es) := by
    refine expands_invoke (setting.defines fpSeqToImprovedGuideEnd (by simp [macrosHpp])) rfl (List.forall_mem_nil _)
      ((hguide.congr (by simp [doneNames, hseq])).idle (by decide) (by decide))
      (reads_balanced (sequence_isArg hes).balanced) (.cons hsteps .nil) rfl ?_
    simpa using hpaste
  have hread : Reads 1 false (listed [] (sequence es ++ [.rparen])) [sequence es] [] :=
    reads_named rfl (List.forall_mem_nil _) (sequence_isArg hes)
  refine expands_invoke (setting.defines fpSeqToImprovedGuide (by simp [macrosHpp])) rfl (List.forall_mem_nil _)
    ((hscope.congr (by simp [doneNames, hseq])).idle (by decide) (by decide)) hread
    (hscope.inert setting (by simpa using sequence_inert hes)) rfl ?_
  simpa using hscan

end Guide

/-! ## The loop -/

/-- The macros that a loop is given. -/
structure LoopNames where
  body : String
  step : String
  final : String
  separator : String

def LoopNames.words (names : LoopNames) : List Text :=
  [[.word names.body], [.word names.step], [.word names.final], [.word names.separator]]

/-- What they make of their arguments: of these step contexts, and of these elements. -/
structure LoopMacros where
  contexts : Text → Prop
  elements : Text → Prop
  body : Text → Text → Text → Text
  step : Text → Text → Text
  final : Text → Text → Text
  separator : Text → Text → Text

/-- The word that the separator gets for the step context. -/
def oldStep : Text := [.word "old_step"]

/-- The macros of these names make this of their arguments, if the names in `uses` are idle. -/
structure Provides (macros : String → Option Macro) (uses : List String) (names : LoopNames) (f : LoopMacros)
    (ctx : Text) : Prop where
  words : ∀ w ∈ names.words, Inert macros uses w
  context : Value macros uses ctx
  value : ∀ s, f.contexts s → Value macros uses s
  element : ∀ e, f.elements e → Element macros uses e
  body : ∀ s e, f.contexts s → f.elements e → Computes macros uses [.word names.body] [ctx, s] e (f.body ctx s e)
  step : ∀ s, f.contexts s → Computes macros uses [.word names.step] [ctx] s (f.step ctx s)
  next : ∀ s, f.contexts s → f.contexts (f.step ctx s)
  final : ∀ s, f.contexts s → Computes macros uses [.word names.final] [ctx] s (f.final ctx s)
  separator : ∀ s, f.contexts s ∨ s = oldStep →
    Computes macros uses [.word names.separator] [ctx] s (f.separator ctx s)

/-- The loop as the comment of `FP_SEQ_FOREACH` has it. -/
def documented (f : LoopMacros) (ctx : Text) : Text → List Text → Text
  | stepCtx, [] => f.final ctx stepCtx
  | stepCtx, [element] => f.body ctx stepCtx element ++ f.final ctx (f.step ctx stepCtx)
  | stepCtx, element :: next :: seq =>
      f.body ctx stepCtx element ++ (f.separator ctx stepCtx ++ documented f ctx (f.step ctx stepCtx) (next :: seq))

/-- What is behind the first element in the expansion of the macros. -/
def later (f : LoopMacros) (ctx : Text) : Text → List Text → Text
  | stepCtx, [] => f.final ctx stepCtx
  | stepCtx, element :: seq =>
      f.separator ctx oldStep ++ (f.body ctx stepCtx element ++ later f ctx (f.step ctx stepCtx) seq)

/-- What the macros make of a loop. -/
def looped (f : LoopMacros) (ctx stepCtx : Text) : List Text → Text
  | [] => f.final ctx stepCtx
  | element :: seq => f.body ctx stepCtx element ++ later f ctx (f.step ctx stepCtx) seq

section Loop
variable {names : LoopNames} {f : LoopMacros} {ctx s : Text}

theorem Provides.values (provides : Provides macros uses names f ctx) {vs : List Text}
    (hvs : ∀ v ∈ vs, Value macros uses v) : ∀ a ∈ names.words ++ ctx :: vs, Value macros uses a := by
  intro a ha
  rcases List.mem_append.mp ha with hword | ha
  · refine ⟨?_, provides.words a hword⟩
    simp only [LoopNames.words, List.mem_cons, List.not_mem_nil, or_false] at hword
    rcases hword with rfl | rfl | rfl | rfl <;> rfl
  · rcases List.mem_cons.mp ha with rfl | ha
    · exact provides.context
    · exact hvs a ha

theorem value_oldStep (header : Header macros) : Value macros uses oldStep :=
  ⟨rfl, .inl header.oldStep, trivial⟩

theorem Provides.args_isArg (provides : Provides macros uses names f ctx) (hs : f.contexts s) :
    ∀ a ∈ names.words ++ [ctx, s], IsArg a := by
  have hargs : ∀ v ∈ [s], Value macros uses v := by simpa using provides.value s hs
  exact fun a ha => (provides.values hargs a ha).isArg

/-- The call of the step that is an argument of the next round. -/
theorem Provides.expands_step (provides : Provides macros uses names f ctx) (hs : f.contexts s)
    (hfree : Free uses active []) :
    Expands macros active (invoke [.word names.step] [ctx] (s ++ [.rparen])) (f.step ctx s) := by
  have h := provides.step s hs active [] [] hfree expands_nil
  rwa [List.append_nil] at h

/-- Values that a loop hands on are expanded to themselves. -/
theorem Provides.scan (provides : Provides macros uses names f ctx) {vs : List Text}
    (hvs : ∀ v ∈ vs, Value macros uses v) (hfree : Free uses active []) :
    List.Forall₂ (Expands macros active) (names.words ++ ctx :: vs) (names.words ++ ctx :: vs) :=
  forall₂_inert (fun a ha => (provides.values hvs a ha).inert) fun name hname hmem =>
    hfree name hname (List.mem_append_left _ hmem)

/-- The arguments of a round: `raw` is the call of the step in the round before. -/
theorem Provides.round_isArg (provides : Provides macros uses names f ctx) {raw old : Text} (hraw : IsArg raw)
    (hold : Value macros uses old) : ∀ a ∈ names.words ++ [ctx, raw, old], IsArg a := by
  intro a ha
  rcases List.mem_append.mp ha with hword | ha
  · exact (provides.values (List.forall_mem_nil _) a (List.mem_append_left _ hword)).isArg
  · simp only [List.mem_cons, List.not_mem_nil, or_false] at ha
    rcases ha with rfl | rfl | rfl
    exacts [provides.context.isArg, hraw, hold.isArg]

theorem Provides.round_scan (provides : Provides macros uses names f ctx) {raw old va : Text}
    (hfree : Free uses active []) (hraw : Expands macros active raw s) (hold : Value macros uses old)
    (hva : Expands macros active va va) :
    List.Forall₂ (Expands macros active) (names.words ++ [ctx, raw, old] ++ [va])
      (names.words ++ [ctx, s, old] ++ [va]) := by
  have hidle : ∀ name ∈ uses, name ∉ active := fun name hname hmem =>
    hfree name hname (List.mem_append_left _ hmem)
  have hwords : List.Forall₂ (Expands macros active) names.words names.words := forall₂_inert provides.words hidle
  have hctx : Expands macros active ctx ctx := expands_inert provides.context.inert hidle
  have hrest : List.Forall₂ (Expands macros active) [ctx, raw, old, va] [ctx, s, old, va] :=
    .cons hctx (.cons hraw (.cons (expands_inert hold.inert hidle) (.cons hva .nil)))
  exact List.rel_append hwords hrest

/-- A round begins: what its call reads is made part of a name. -/
theorem expands_foreachA (setting : Setting macros uses) (provides : Provides macros uses names f ctx)
    {ts va g raw old : Text} {ends : String}
    (hends : ends ∈ ["FP_IMPROVED_GUIDE_FOREACH_FIRST_B", "FP_IMPROVED_GUIDE_FOREACH_B"])
    (hts : Scope uses ["FP_IMPROVED_GUIDE_FOREACH", "FP_SEQ_FOREACH"] active ts)
    (hscope : Scope uses ["FP_IMPROVED_GUIDE_FOREACH", "FP_SEQ_FOREACH"] active rest)
    (hread : Reads 0 true ts [va] rest) (hva : Expands macros (active ++ doneNames rest) va va)
    (hraw : IsArg raw) (hold : Value macros uses old) (hstep : Expands macros (active ++ doneNames rest) raw s)
    (hpaste : paste [.word "FP_IMPROVED_GUIDE_FOREACH_A_"] va = some g)
    (h : Expands macros active
      (invoke g (names.words ++ [ctx, s]) (oldStep ++ .rparen :: .done "FP_IMPROVED_GUIDE_FOREACH_A" :: rest)) out) :
    Expands macros active
      (invoke [.word "FP_IMPROVED_GUIDE_FOREACH_A"] (names.words ++ [ctx, raw, old]) (.done ends :: ts)) out := by
  have hloop : ends ∈ loopNames ∧
      "FP_IMPROVED_GUIDE_FOREACH_A" ∉ [ends, "FP_IMPROVED_GUIDE_FOREACH", "FP_SEQ_FOREACH"] := by
    simp only [List.mem_cons, List.not_mem_nil, or_false] at hends
    rcases hends with rfl | rfl <;> decide
  have hargs := provides.round_isArg hraw hold
  refine expands_invoke (setting.defines fpImprovedGuideForeachA (by simp [macrosHpp])) rfl hargs
    ((hts.done ends hloop.1).idle (by decide) hloop.2) (reads_variadic rfl hargs hread.done)
    (provides.round_scan (hscope.scan.free setting) hstep hold hva) (replace_a hpaste) ?_
  simpa [invoke, listed, LoopNames.words, oldStep] using h

/-- The round at the end mark. -/
theorem expands_lastRound (setting : Setting macros uses) (provides : Provides macros uses names f ctx)
    {raw old : Text} {ends : String}
    (hends : ends ∈ ["FP_IMPROVED_GUIDE_FOREACH_FIRST_B", "FP_IMPROVED_GUIDE_FOREACH_B"])
    (hscope : Scope uses ["FP_IMPROVED_GUIDE_FOREACH", "FP_SEQ_FOREACH"] active rest)
    (hraw : IsArg raw) (hs : f.contexts s) (hold : Value macros uses old)
    (hstep : Expands macros (active ++ doneNames rest) raw s) (h : Expands macros active rest out) :
    Expands macros active (invoke [.word "FP_IMPROVED_GUIDE_FOREACH_A"] (names.words ++ [ctx, raw, old])
      (.done ends :: (guide [] ++ rest))) (f.final ctx s ++ out) := by
  have hround := hscope.done "FP_IMPROVED_GUIDE_FOREACH_A" (by decide)
  have hend := hround.done "FP_IMPROVED_GUIDE_FOREACH_A_FP_IMPROVED_GUIDE_END_MARK" (by decide)
  have hfinal : Expands macros active (invoke [.word names.final] [ctx] (s ++ .rparen ::
      .done "FP_IMPROVED_GUIDE_FOREACH_A_FP_IMPROVED_GUIDE_END_MARK" :: .done "FP_IMPROVED_GUIDE_FOREACH_A" :: rest))
      (f.final ctx s ++ out) := provides.final s hs active _ out (hend.free setting) (.done (.done h))
  have hmark : Expands macros active (invoke [.word "FP_IMPROVED_GUIDE_FOREACH_A_FP_IMPROVED_GUIDE_END_MARK"]
      (names.words ++ [ctx, s]) (oldStep ++ .rparen :: .done "FP_IMPROVED_GUIDE_FOREACH_A" :: rest))
      (f.final ctx s ++ out) := by
    have has : ∀ a ∈ names.words ++ [ctx, s], IsArg a := provides.args_isArg hs
    have hargs : ∀ v ∈ [s, oldStep], Value macros uses v := by
      simpa using ⟨provides.value s hs, value_oldStep setting.toHeader⟩
    refine expands_invoke (setting.defines fpImprovedGuideForeachAEndMark (by simp [macrosHpp])) rfl has
      (hround.idle (by decide) (by decide)) (reads_named rfl has rfl)
      (provides.scan hargs (hround.scan.free setting)) rfl ?_
    simpa [invoke, listed] using hfinal
  have hword : Balanced [.word "FP_IMPROVED_GUIDE_END_MARK"] := rfl
  exact expands_foreachA setting provides hends (hscope.congr rfl) hscope (reads_balanced hword)
    (.word setting.endMark expands_nil) hraw hold hstep paste_a_endMark hmark

/-- A round with an element: the separator, the body, and the next round. -/
theorem expands_nextRound (setting : Setting macros uses) (provides : Provides macros uses names f ctx)
    {raw old e : Text} {ends : String}
    (hends : ends ∈ ["FP_IMPROVED_GUIDE_FOREACH_FIRST_B", "FP_IMPROVED_GUIDE_FOREACH_B"])
    (hscope : Scope uses ["FP_IMPROVED_GUIDE_FOREACH", "FP_SEQ_FOREACH"] active rest)
    (hraw : IsArg raw) (hs : f.contexts s) (hold : Value macros uses old) (he : f.elements e)
    (hstep : Expands macros (active ++ doneNames rest) raw s)
    (h : Expands macros active (invoke [.word "FP_IMPROVED_GUIDE_FOREACH_A"]
      (names.words ++ [ctx, invoke [.word names.step] [ctx] (s ++ [.rparen]), s])
      (.done "FP_IMPROVED_GUIDE_FOREACH_B" :: rest)) out) :
    Expands macros active (invoke [.word "FP_IMPROVED_GUIDE_FOREACH_A"] (names.words ++ [ctx, raw, old])
      (.done ends :: .rparen :: (e ++ .rparen :: rest)))
      (f.separator ctx oldStep ++ (f.body ctx s e ++ out)) := by
  have hargs : ∀ v ∈ [s, oldStep], Value macros uses v := by
    simpa using ⟨provides.value s hs, value_oldStep setting.toHeader⟩
  have hpair : ∀ a ∈ [ctx, s], IsArg a := by simpa using ⟨provides.context.isArg, (provides.value s hs).isArg⟩
  have hcall : IsArg (invoke [.word names.step] [ctx] (s ++ [.rparen])) :=
    invoke_isArg _ (by simpa using provides.context.isArg) (provides.value s hs).isArg.balanced
  have hinert := provides.element e he
  have helement := hscope.element hinert.inert
  have hround := helement.done "FP_IMPROVED_GUIDE_FOREACH_A" (by decide)
  have hround_ := hround.done "FP_IMPROVED_GUIDE_FOREACH_A_" (by decide)
  have hnext := (hscope.done "FP_IMPROVED_GUIDE_FOREACH_B" (by decide)).call "FP_IMPROVED_GUIDE_FOREACH_A"
    (provides.round_isArg hcall (provides.value s hs))
  have hbody := provides.body s e hs he active _ out (hnext.free setting) h
  have hseparator := provides.separator oldStep (.inr rfl) active _ _
    (((hnext.element hinert.inert).call names.body hpair).free setting) hbody
  have hB : Expands macros active (invoke [.word "FP_IMPROVED_GUIDE_FOREACH_B"] (names.words ++ [ctx, s, oldStep])
      (.done "FP_IMPROVED_GUIDE_FOREACH_A_" :: .done "FP_IMPROVED_GUIDE_FOREACH_A" :: (e ++ .rparen :: rest)))
      (f.separator ctx oldStep ++ (f.body ctx s e ++ out)) := by
    have has : ∀ a ∈ names.words ++ [ctx, s, oldStep], IsArg a := fun a ha => (provides.values hargs a ha).isArg
    have hfree := hscope.scan.free setting
    refine expands_invoke (setting.defines fpImprovedGuideForeachB (by simp [macrosHpp])) rfl has
      (hround_.idle (by decide) (by decide)) (reads_variadic rfl has (reads_balanced hinert.balanced).done.done)
      (provides.round_scan hfree (.self (provides.value s hs).inert hfree) (value_oldStep setting.toHeader)
        (.self hinert.inert hfree)) rfl ?_
    simpa [invoke, listed, LoopNames.words] using hseparator
  have hA_ : Expands macros active (invoke [.word "FP_IMPROVED_GUIDE_FOREACH_A_"] (names.words ++ [ctx, s])
      (oldStep ++ .rparen :: .done "FP_IMPROVED_GUIDE_FOREACH_A" :: (e ++ .rparen :: rest)))
      (f.separator ctx oldStep ++ (f.body ctx s e ++ out)) := by
    have has : ∀ a ∈ names.words ++ [ctx, s], IsArg a := provides.args_isArg hs
    refine expands_invoke (setting.defines fpImprovedGuideForeachA_ (by simp [macrosHpp])) rfl has
      (hround.idle (by decide) (by decide)) (reads_named rfl has rfl)
      (provides.scan hargs (hround.scan.free setting)) rfl ?_
    simpa [invoke, listed, LoopNames.words] using hB
  have hnil : Balanced [] := rfl
  have helementDone : doneNames (e ++ .rparen :: rest) = doneNames rest := by
    simp [doneNames, doneNames_of_inert hinert.inert]
  exact expands_foreachA setting provides hends (helement.congr rfl) helement (reads_balanced hnil) expands_nil
    hraw hold (by rwa [helementDone]) rfl hA_

theorem doneNames_guide (hes : ∀ e ∈ es, Element macros uses e) : doneNames (guide es) = [] := by
  induction es with
  | nil => rfl
  | cons e es ih =>
      have he := doneNames_of_inert (hes e (List.mem_cons_self ..)).inert
      simpa [guide, closed, doneNames, he] using ih fun x hx => hes x (List.mem_cons_of_mem _ hx)

/-- The rounds from the second on. -/
theorem expands_rounds (setting : Setting macros uses) (provides : Provides macros uses names f ctx)
    (hscope : Scope uses ["FP_IMPROVED_GUIDE_FOREACH", "FP_SEQ_FOREACH"] active rest)
    (hes : ∀ e ∈ es, f.elements e) {raw old : Text} {ends : String}
    (hends : ends ∈ ["FP_IMPROVED_GUIDE_FOREACH_FIRST_B", "FP_IMPROVED_GUIDE_FOREACH_B"])
    (hraw : IsArg raw) (hs : f.contexts s) (hold : Value macros uses old)
    (hstep : Expands macros (active ++ doneNames rest) raw s) (h : Expands macros active rest out) :
    Expands macros active (invoke [.word "FP_IMPROVED_GUIDE_FOREACH_A"] (names.words ++ [ctx, raw, old])
      (.done ends :: (guide es ++ rest))) (later f ctx s es ++ out) := by
  induction es generalizing s raw old ends with
  | nil => exact expands_lastRound setting provides hends hscope hraw hs hold hstep h
  | cons e es ih =>
      have he := hes e (List.mem_cons_self ..)
      have hes : ∀ x ∈ es, f.elements x := fun x hx => hes x (List.mem_cons_of_mem _ hx)
      have hguide : doneNames (guide es ++ rest) = doneNames rest := by
        rw [doneNames_append, doneNames_guide fun x hx => provides.element x (hes x hx), List.nil_append]
      have hcall : IsArg (invoke [.word names.step] [ctx] (s ++ [.rparen])) :=
        invoke_isArg _ (by simpa using provides.context.isArg) (provides.value s hs).isArg.balanced
      have hB : "FP_IMPROVED_GUIDE_FOREACH_B" ∈
          ["FP_IMPROVED_GUIDE_FOREACH_FIRST_B", "FP_IMPROVED_GUIDE_FOREACH_B"] := by decide
      have hnext := ih hes hB hcall (provides.next s hs) (provides.value s hs)
        (provides.expands_step hs (hscope.scan.free setting))
      have hround := expands_nextRound setting provides hends (hscope.congr hguide) hraw hs hold he
        (by rwa [hguide]) hnext
      simpa [guide, closed, later] using hround

/-! ## The first round -/

theorem value_nil : Value macros uses [] := ⟨rfl, trivial⟩

theorem expands_foreachFirst (setting : Setting macros uses) (provides : Provides macros uses names f ctx)
    {ts va g : Text} (hts : Scope uses ["FP_IMPROVED_GUIDE_FOREACH", "FP_SEQ_FOREACH"] active ts)
    (hscope : Scope uses ["FP_IMPROVED_GUIDE_FOREACH", "FP_SEQ_FOREACH"] active rest)
    (hread : Reads 0 true ts [va] rest) (hva : Expands macros (active ++ doneNames rest) va va)
    (hs : f.contexts s) (hpaste : paste [.word "FP_IMPROVED_GUIDE_FOREACH_FIRST_"] va = some g)
    (h : Expands macros active
      (invoke g (names.words ++ [ctx]) (s ++ .rparen :: .done "FP_IMPROVED_GUIDE_FOREACH_FIRST" :: rest)) out) :
    Expands macros active (invoke [.word "FP_IMPROVED_GUIDE_FOREACH_FIRST"] (names.words ++ [ctx, s]) ts) out := by
  have has : ∀ a ∈ names.words ++ [ctx, s], IsArg a := provides.args_isArg hs
  have hscan : List.Forall₂ (Expands macros (active ++ doneNames rest)) (names.words ++ [ctx, s] ++ [va])
      (names.words ++ [ctx, s] ++ [va]) :=
    List.rel_append (provides.scan (by simpa using provides.value s hs) (hscope.scan.free setting)) (.cons hva .nil)
  refine expands_invoke (setting.defines fpImprovedGuideForeachFirst (by simp [macrosHpp])) rfl has
    (hts.idle (by decide) (by decide)) (reads_variadic rfl has hread) hscan (replace_first hpaste) ?_
  simpa [invoke, listed, LoopNames.words] using h

/-- There is no element. -/
theorem expands_noElement (setting : Setting macros uses) (provides : Provides macros uses names f ctx)
    (hscope : Scope uses ["FP_IMPROVED_GUIDE_FOREACH", "FP_SEQ_FOREACH"] active rest)
    (hs : f.contexts s) (h : Expands macros active rest out) :
    Expands macros active (invoke [.word "FP_IMPROVED_GUIDE_FOREACH_FIRST"] (names.words ++ [ctx, s])
      (guide [] ++ rest)) (f.final ctx s ++ out) := by
  have hfirst := hscope.done "FP_IMPROVED_GUIDE_FOREACH_FIRST" (by decide)
  have hend := hfirst.done "FP_IMPROVED_GUIDE_FOREACH_FIRST_FP_IMPROVED_GUIDE_END_MARK" (by decide)
  have hfinal := provides.final s hs active _ out (hend.free setting) (.done (.done h))
  have hmark : Expands macros active (invoke [.word "FP_IMPROVED_GUIDE_FOREACH_FIRST_FP_IMPROVED_GUIDE_END_MARK"]
      (names.words ++ [ctx]) (s ++ .rparen :: .done "FP_IMPROVED_GUIDE_FOREACH_FIRST" :: rest))
      (f.final ctx s ++ out) := by
    have has : ∀ a ∈ names.words ++ [ctx], IsArg a := fun a ha =>
      (provides.values (List.forall_mem_nil _) a ha).isArg
    have hargs : ∀ v ∈ [s, []], Value macros uses v := by simpa using ⟨provides.value s hs, value_nil⟩
    refine expands_invoke (setting.defines fpImprovedGuideForeachFirstEndMark (by simp [macrosHpp])) rfl has
      ((hfirst.element (provides.value s hs).inert).idle (by decide) (by decide))
      (reads_omitted rfl has (provides.value s hs).isArg)
      (provides.scan hargs (hfirst.scan.free setting)) rfl ?_
    simpa [invoke, listed] using hfinal
  have hword : Balanced [.word "FP_IMPROVED_GUIDE_END_MARK"] := rfl
  exact expands_foreachFirst setting provides (hscope.congr rfl) hscope (reads_balanced hword)
    (.word setting.endMark expands_nil) hs paste_first_endMark hmark

/-- The first element, and the rounds behind it. -/
theorem expands_firstElement (setting : Setting macros uses) (provides : Provides macros uses names f ctx)
    {e : Text} (hscope : Scope uses ["FP_IMPROVED_GUIDE_FOREACH", "FP_SEQ_FOREACH"] active rest)
    (hs : f.contexts s) (he : f.elements e)
    (h : Expands macros active (invoke [.word "FP_IMPROVED_GUIDE_FOREACH_A"]
      (names.words ++ [ctx, invoke [.word names.step] [ctx] (s ++ [.rparen]), s])
      (.done "FP_IMPROVED_GUIDE_FOREACH_FIRST_B" :: rest)) out) :
    Expands macros active (invoke [.word "FP_IMPROVED_GUIDE_FOREACH_FIRST"] (names.words ++ [ctx, s])
      (.rparen :: (e ++ .rparen :: rest))) (f.body ctx s e ++ out) := by
  have hcall : IsArg (invoke [.word names.step] [ctx] (s ++ [.rparen])) :=
    invoke_isArg _ (by simpa using provides.context.isArg) (provides.value s hs).isArg.balanced
  have hinert := provides.element e he
  have helement := hscope.element hinert.inert
  have hfirst := helement.done "FP_IMPROVED_GUIDE_FOREACH_FIRST" (by decide)
  have hfirst_ := hfirst.done "FP_IMPROVED_GUIDE_FOREACH_FIRST_" (by decide)
  have hnext := (hscope.done "FP_IMPROVED_GUIDE_FOREACH_FIRST_B" (by decide)).call "FP_IMPROVED_GUIDE_FOREACH_A"
    (provides.round_isArg hcall (provides.value s hs))
  have hbody := provides.body s e hs he active _ out (hnext.free setting) h
  have hB : Expands macros active (invoke [.word "FP_IMPROVED_GUIDE_FOREACH_FIRST_B"] (names.words ++ [ctx, s])
      (.done "FP_IMPROVED_GUIDE_FOREACH_FIRST_" :: .done "FP_IMPROVED_GUIDE_FOREACH_FIRST" ::
        (e ++ .rparen :: rest))) (f.body ctx s e ++ out) := by
    have has : ∀ a ∈ names.words ++ [ctx, s], IsArg a := provides.args_isArg hs
    have hfree := hscope.scan.free setting
    have hscan : List.Forall₂ (Expands macros (active ++ doneNames rest)) (names.words ++ [ctx, s] ++ [e])
        (names.words ++ [ctx, s] ++ [e]) :=
      List.rel_append (provides.scan (by simpa using provides.value s hs) hfree) (.cons (.self hinert.inert hfree) .nil)
    refine expands_invoke (setting.defines fpImprovedGuideForeachFirstB (by simp [macrosHpp])) rfl has
      (hfirst_.idle (by decide) (by decide)) (reads_variadic rfl has (reads_balanced hinert.balanced).done.done)
      hscan rfl ?_
    simpa [invoke, listed, LoopNames.words] using hbody
  have hFirst_ : Expands macros active (invoke [.word "FP_IMPROVED_GUIDE_FOREACH_FIRST_"] (names.words ++ [ctx])
      (s ++ .rparen :: .done "FP_IMPROVED_GUIDE_FOREACH_FIRST" :: (e ++ .rparen :: rest)))
      (f.body ctx s e ++ out) := by
    have has : ∀ a ∈ names.words ++ [ctx], IsArg a := fun a ha =>
      (provides.values (List.forall_mem_nil _) a ha).isArg
    have hargs : ∀ v ∈ [s, []], Value macros uses v := by simpa using ⟨provides.value s hs, value_nil⟩
    refine expands_invoke (setting.defines fpImprovedGuideForeachFirst_ (by simp [macrosHpp])) rfl has
      ((hfirst.element (provides.value s hs).inert).idle (by decide) (by decide))
      (reads_omitted rfl has (provides.value s hs).isArg)
      (provides.scan hargs (hfirst.scan.free setting)) rfl ?_
    simpa [invoke, listed, LoopNames.words] using hB
  have hnil : Balanced [] := rfl
  exact expands_foreachFirst setting provides (helement.congr rfl) helement (reads_balanced hnil) expands_nil hs rfl
    hFirst_

theorem expands_guideForeach (setting : Setting macros uses) (provides : Provides macros uses names f ctx)
    (hscope : Scope uses ["FP_IMPROVED_GUIDE_FOREACH", "FP_SEQ_FOREACH"] active rest)
    (hes : ∀ e ∈ es, f.elements e) (hs : f.contexts s) (h : Expands macros active rest out) :
    Expands macros active (invoke [.word "FP_IMPROVED_GUIDE_FOREACH_FIRST"] (names.words ++ [ctx, s])
      (guide es ++ rest)) (looped f ctx s es ++ out) := by
  cases es with
  | nil => exact expands_noElement setting provides hscope hs h
  | cons e es =>
      have he := hes e (List.mem_cons_self ..)
      have hes : ∀ x ∈ es, f.elements x := fun x hx => hes x (List.mem_cons_of_mem _ hx)
      have hguide : doneNames (guide es ++ rest) = doneNames rest := by
        rw [doneNames_append, doneNames_guide fun x hx => provides.element x (hes x hx), List.nil_append]
      have hcall : IsArg (invoke [.word names.step] [ctx] (s ++ [.rparen])) :=
        invoke_isArg _ (by simpa using provides.context.isArg) (provides.value s hs).isArg.balanced
      have hrounds := expands_rounds setting provides hscope hes (List.mem_cons_self ..) hcall (provides.next s hs)
        (provides.value s hs) (provides.expands_step hs (hscope.scan.free setting)) h
      have hfirst := expands_firstElement setting provides (hscope.congr hguide) hs he hrounds
      simpa [guide, closed, looped] using hfirst

/-- `FP_SEQ_FOREACH` expands to the loop, where the separators get the word `old_step`. Its context, its start
and its sequence may be any arguments that expand to these. -/
theorem expands_seqForeach (setting : Setting macros uses) (provides : Provides macros uses names f ctx)
    (hscope : Scope uses [] active rest) (hes : ∀ e ∈ es, f.elements e) (hs : f.contexts s)
    {ctxArg startArg seqArg : Text} (hctxArg : IsArg ctxArg) (hstartArg : IsArg startArg) (hseqArg : IsArg seqArg)
    (hctx : Expands macros (active ++ doneNames rest) ctxArg ctx)
    (hstart : Expands macros (active ++ doneNames rest) startArg s)
    (hseq : Expands macros (active ++ doneNames rest) seqArg (sequence es)) (h : Expands macros active rest out) :
    Expands macros active (invoke [.word "FP_SEQ_FOREACH"] (names.words ++ [ctxArg, startArg])
      (seqArg ++ .rparen :: rest)) (looped f ctx s es ++ out) := by
  have hwords : ∀ a ∈ names.words, IsArg a := fun a ha =>
    (provides.values (List.forall_mem_nil _) a (List.mem_append_left _ ha)).isArg
  have hforeach := hscope.done "FP_SEQ_FOREACH" (by decide)
  have hloop := hforeach.done "FP_IMPROVED_GUIDE_FOREACH" (by decide)
  have hguideCall : IsArg (invoke [.word "FP_SEQ_TO_IMPROVED_GUIDE"] [] (sequence es ++ [.rparen])) :=
    invoke_isArg _ (List.forall_mem_nil _) (sequence_isArg fun e he => provides.element e (hes e he)).balanced
  have hfirst := expands_guideForeach setting provides hloop hes hs (.done (.done h))
  have hguide : Expands macros active (invoke [.word "FP_IMPROVED_GUIDE_FOREACH"] (names.words ++ [ctx, s])
      (invoke [.word "FP_SEQ_TO_IMPROVED_GUIDE"] [] (sequence es ++ [.rparen]) ++ .rparen ::
        .done "FP_SEQ_FOREACH" :: rest)) (looped f ctx s es ++ out) := by
    have has : ∀ a ∈ names.words ++ [ctx, s], IsArg a := provides.args_isArg hs
    have hscan : List.Forall₂ (Expands macros (active ++ doneNames (.done "FP_SEQ_FOREACH" :: rest)))
        (names.words ++ [ctx, s] ++ [invoke [.word "FP_SEQ_TO_IMPROVED_GUIDE"] [] (sequence es ++ [.rparen])])
        (names.words ++ [ctx, s] ++ [guide es]) :=
      List.rel_append (provides.scan (by simpa using provides.value s hs) (hforeach.scan.free setting))
        (.cons (expands_seqToImprovedGuide setting (fun e he => provides.element e (hes e he)) hforeach.scan) .nil)
    have hts : Scope uses ["FP_SEQ_FOREACH"] active (invoke [.word "FP_SEQ_TO_IMPROVED_GUIDE"] []
        (sequence es ++ [.rparen]) ++ .rparen :: .done "FP_SEQ_FOREACH" :: rest) :=
      hforeach.congr (by rw [doneNames_append, doneNames_of_level hguideCall]; rfl)
    refine expands_invoke (setting.defines fpImprovedGuideForeach (by simp [macrosHpp])) rfl has
      (hts.idle (by decide) (by decide)) (reads_variadic rfl has (reads_balanced hguideCall.balanced)) hscan rfl ?_
    simpa [invoke, listed, LoopNames.words] using hfirst
  have has : ∀ a ∈ names.words ++ [ctxArg, startArg], IsArg a := by
    intro a ha
    rcases List.mem_append.mp ha with hword | ha
    · exact hwords a hword
    · simp only [List.mem_cons, List.not_mem_nil, or_false] at ha
      rcases ha with rfl | rfl
      exacts [hctxArg, hstartArg]
  have hscan : List.Forall₂ (Expands macros (active ++ doneNames rest))
      (names.words ++ [ctxArg, startArg] ++ [seqArg]) (names.words ++ [ctx, s] ++ [sequence es]) := by
    have hfree := hscope.scan.free setting
    have hself : List.Forall₂ (Expands macros (active ++ doneNames rest)) names.words names.words :=
      hscope.inert setting provides.words
    have hrest : List.Forall₂ (Expands macros (active ++ doneNames rest)) [ctxArg, startArg, seqArg]
        [ctx, s, sequence es] := .cons hctx (.cons hstart (.cons hseq .nil))
    exact List.rel_append hself hrest
  have hts : Scope uses [] active (seqArg ++ .rparen :: rest) :=
    hscope.congr (by rw [doneNames_append, doneNames_of_level hseqArg]; rfl)
  refine expands_invoke (setting.defines fpSeqForeach (by simp [macrosHpp])) rfl has (hts.idle (by decide) (by decide))
    (reads_named rfl has hseqArg) hscan rfl ?_
  simpa [invoke, listed, LoopNames.words] using hguide

/-- With arguments that are there already. -/
theorem computes_seqForeach (setting : Setting macros uses) (provides : Provides macros uses names f ctx)
    (hes : ∀ e ∈ es, f.elements e) (hs : f.contexts s) :
    Computes macros (loopNames ++ uses) [.word "FP_SEQ_FOREACH"] (names.words ++ [ctx, s]) (sequence es)
      (looped f ctx s es) := by
  intro active rest out hfree h
  have hscope : Scope uses [] active rest := ⟨hfree.toBusy, List.nil_subset _⟩
  have hidle : ∀ name ∈ uses, name ∉ active ++ doneNames rest := hscope.free setting
  have hvalue := provides.value s hs
  have helements : ∀ e ∈ es, Element macros uses e := fun e he => provides.element e (hes e he)
  exact expands_seqForeach setting provides hscope hes hs provides.context.isArg hvalue.isArg
    (sequence_isArg helements) (expands_inert provides.context.inert hidle) (expands_inert hvalue.inert hidle)
    (expands_inert (sequence_inert helements) hidle) h

end Loop

/-! ## The documented loop -/

section Documented
variable {f : LoopMacros} {ctx s : Text}

/-- The loop from a second element on. -/
theorem later_cons (f : LoopMacros) (ctx s e : Text) (es : List Text) :
    later f ctx s (e :: es) = f.separator ctx oldStep ++ looped f ctx s (e :: es) := rfl

/-- If the separator gives the same for `old_step` as for the step contexts between elements, the loop is the
documented one. -/
theorem looped_eq_documented
    (h : ∀ i, i + 1 < es.length → f.separator ctx oldStep = f.separator ctx ((f.step ctx)^[i] s)) :
    looped f ctx s es = documented f ctx s es := by
  induction es generalizing s with
  | nil => rfl
  | cons e es ih =>
      cases es with
      | nil => rfl
      | cons next es =>
          have hfirst : f.separator ctx oldStep = f.separator ctx s := h 0 (by simp)
          have hrest : looped f ctx (f.step ctx s) (next :: es) = documented f ctx (f.step ctx s) (next :: es) := by
            refine ih fun i hi => ?_
            rw [← Function.iterate_succ_apply]
            exact h (i + 1) (by simpa using hi)
          rw [looped, later_cons, hrest, hfirst, documented]

instance : Infinite Token := Infinite.of_injective Token.other fun _ _ => Token.other.inj

/-- A body that shows where it is makes the two loops differ, unless the separators agree. -/
theorem separator_eq_of_looped_eq {mark : Token} (hbody : ∀ s e, f.body ctx s e = [mark])
    (hold : mark ∉ f.separator ctx oldStep)
    (hmark : ∀ i, i + 1 < es.length → mark ∉ f.separator ctx ((f.step ctx)^[i] s))
    (h : looped f ctx s es = documented f ctx s es) :
    ∀ i, i + 1 < es.length → f.separator ctx oldStep = f.separator ctx ((f.step ctx)^[i] s) := by
  induction es generalizing s with
  | nil => exact fun i hi => absurd hi (by simp)
  | cons e es ih =>
      cases es with
      | nil => exact fun i hi => absurd hi (by simp)
      | cons next es =>
          have hdocumented : ∀ s, ∃ rest, documented f ctx s (next :: es) = mark :: rest := by
            intro s
            cases es with
            | nil => exact ⟨_, by rw [documented, hbody]; rfl⟩
            | cons => exact ⟨_, by rw [documented, hbody]; rfl⟩
          obtain ⟨rest, hrest⟩ := hdocumented (f.step ctx s)
          have hlooped : looped f ctx (f.step ctx s) (next :: es) =
              mark :: later f ctx (f.step ctx (f.step ctx s)) es := by rw [looped, hbody]; rfl
          have hboth : f.separator ctx oldStep ++ mark :: later f ctx (f.step ctx (f.step ctx s)) es =
              f.separator ctx s ++ mark :: rest := by
            rw [looped, later_cons, documented, hlooped, hrest] at h
            exact List.append_cancel_left h
          have hnot : mark ∉ f.separator ctx s := hmark 0 (by simp)
          obtain ⟨hsep, htail⟩ := (Lib.append_cons_inj hold hnot).mp hboth
          have hstep : ∀ i, i + 1 < (next :: es).length →
              f.separator ctx oldStep = f.separator ctx ((f.step ctx)^[i] (f.step ctx s)) := by
            refine ih (fun i hi => ?_) (by rw [hlooped, hrest, htail])
            rw [← Function.iterate_succ_apply]
            exact hmark (i + 1) (by simpa using hi)
          intro i hi
          cases i with
          | zero => exact hsep
          | succ i =>
              rw [Function.iterate_succ_apply]
              exact hstep i (by simpa using hi)

/-- Whatever the body: the loop is the documented one exactly if the separator gives the same for `old_step` as
for each step context between two elements. -/
theorem looped_eq_documented_iff :
    (∀ body, looped { f with body := body } ctx s es = documented { f with body := body } ctx s es) ↔
      ∀ i, i + 1 < es.length → f.separator ctx oldStep = f.separator ctx ((f.step ctx)^[i] s) := by
  constructor
  · intro h
    let separators := f.separator ctx oldStep ++
      (List.range es.length).flatMap fun i => f.separator ctx ((f.step ctx)^[i] s)
    obtain ⟨mark, hmark⟩ := Infinite.exists_notMem_finset separators.toFinset
    have hmark : mark ∉ separators := fun hmem => hmark (List.mem_toFinset.mpr hmem)
    refine separator_eq_of_looped_eq (f := { f with body := fun _ _ _ => [mark] }) (fun _ _ => rfl)
      (fun hmem => hmark (List.mem_append_left _ hmem)) (fun i hi hmem => hmark (List.mem_append_right _ ?_)) (h _)
    exact List.mem_flatMap.mpr ⟨i, List.mem_range.mpr (by omega), hmem⟩
  · exact fun h body => looped_eq_documented (f := { f with body := body }) h

end Documented

/-- **When `FP_SEQ_FOREACH` expands as documented.** Where the macros that it is given stand for some text, it
expands to the documented loop exactly if that is the loop with `old_step` for the step context of the
separators; and so it is, whatever the body, exactly if the separator gives the same for `old_step` as for the
step context between any two elements. -/
theorem seqForeach_documented_iff {names : LoopNames} {f : LoopMacros} {ctx s : Text}
    (setting : Setting macros uses) (provides : Provides macros uses names f ctx)
    (hidle : Free (loopNames ++ uses) active rest) (hes : ∀ e ∈ es, f.elements e)
    (hs : f.contexts s) {ctxArg startArg seqArg : Text} (hctxArg : IsArg ctxArg) (hstartArg : IsArg startArg)
    (hseqArg : IsArg seqArg) (hctx : Expands macros (active ++ doneNames rest) ctxArg ctx)
    (hstart : Expands macros (active ++ doneNames rest) startArg s)
    (hseq : Expands macros (active ++ doneNames rest) seqArg (sequence es)) (h : Expands macros active rest out) :
    (Expands macros active (invoke [.word "FP_SEQ_FOREACH"] (names.words ++ [ctxArg, startArg])
        (seqArg ++ .rparen :: rest)) (documented f ctx s es ++ out) ↔
      looped f ctx s es = documented f ctx s es) ∧
    ((∀ body, looped { f with body := body } ctx s es = documented { f with body := body } ctx s es) ↔
      ∀ i, i + 1 < es.length → f.separator ctx oldStep = f.separator ctx ((f.step ctx)^[i] s)) := by
  have hscope : Scope uses [] active rest := ⟨Free.toBusy hidle, List.nil_subset _⟩
  have hlooped := expands_seqForeach setting provides hscope hes hs hctxArg hstartArg hseqArg hctx hstart hseq h
  refine ⟨⟨fun hdocumented => ?_, fun heq => ?_⟩, looped_eq_documented_iff⟩
  · exact List.append_cancel_right (hlooped.unique hdocumented)
  · rwa [← heq]

/-! ## A loop over two elements -/

section Example
variable {separator : String} {g : Text → Text → Text}

/-- The loop with `FP_STATE` for its body and its step, which ignore the context, and without a final. -/
def stateNames (separator : String) : LoopNames := ⟨"FP_STATE", "FP_STATE", "FP_NULL", separator⟩

def stateMacros (separator : Text → Text → Text) : LoopMacros :=
  ⟨Value table [], Element table [], fun _ s e => s ++ .comma :: e, fun _ s => s, fun _ _ => [], separator⟩

def stateUses : List String := ["FP_STATE", "FP_NULL", "FP_COMMA"]

theorem setting_state : Setting table stateUses := ⟨header_table, by decide⟩

theorem value_plain {s : Text} (hs : Value table [] s) : ∀ a ∈ [s], IsArg a ∧ Inert table [] a := by
  simpa using And.intro hs.isArg hs.inert

theorem inert_fpState : Inert table stateUses [.word "FP_STATE"] :=
  ⟨.inr ⟨by decide, by simp, fpState, header_table.defines fpState (by simp [macrosHpp]), rfl⟩, trivial⟩

theorem computes_state_value {s : Text} (hs : Value table [] s) :
    Computes table stateUses [.word "FP_STATE"] [[]] s s :=
  computes_state header_table (by decide) ⟨rfl, trivial⟩ (List.forall_mem_nil _) ⟨hs.isArg.balanced, hs.inert⟩

theorem provides_state (hword : Inert table stateUses [.word separator])
    (hseparator : ∀ s, Value table [] s → Computes table stateUses [.word separator] [[]] s (g [] s)) :
    Provides table stateUses (stateNames separator) (stateMacros g) [] where
  words := by
    have hnull : Inert table stateUses [.word "FP_NULL"] :=
      ⟨.inr ⟨by decide, by simp, fpNull, header_table.defines fpNull (by simp [macrosHpp]), rfl⟩, trivial⟩
    simpa [LoopNames.words, stateNames] using ⟨inert_fpState, hnull, hword⟩
  context := value_nil
  value _ hs := hs.mono (List.nil_subset _)
  element _ he := he.mono (List.nil_subset _)
  body _ _ hs he :=
    computes_state header_table (by decide) ⟨rfl, trivial⟩ (value_plain hs) ⟨he.balanced, he.inert⟩
  step _ hs := computes_state_value hs
  next _ hs := hs
  final _ hs := computes_null header_table (by decide) (value_plain value_nil) ⟨hs.isArg.balanced, hs.inert⟩
  separator s hs := hseparator s (hs.elim id fun heq => heq ▸ value_oldStep header_table)

/-- `FP_SEQ_FOREACH(FP_STATE, FP_STATE, FP_NULL, separator, , 0, (a)(b))`. -/
def stateLoop (separator : String) : Text :=
  invoke [.word "FP_SEQ_FOREACH"] ((stateNames separator).words ++ [[], [.number "0"]])
    (sequence [[.word "a"], [.word "b"]] ++ [.rparen])

theorem element_stateLoop : ∀ e ∈ [[Token.word "a"], [.word "b"]], Element table [] e := by
  have ha : Element table [] [.word "a"] := ⟨rfl, .inl rfl, trivial⟩
  have hb : Element table [] [.word "b"] := ⟨rfl, .inl rfl, trivial⟩
  simpa using ⟨ha, hb⟩

theorem expands_sequence_stateLoop :
    Expands table [] (sequence [[.word "a"], [.word "b"]]) (sequence [[.word "a"], [.word "b"]]) :=
  expands_plain (sequence_inert element_stateLoop)

theorem value_zero : Value table [] [.number "0"] := ⟨rfl, trivial⟩

theorem seqForeach_documented_comma :
    Expands table [] (stateLoop "FP_COMMA")
        (documented (stateMacros fun _ _ => [.comma]) [] [.number "0"] [[.word "a"], [.word "b"]]) ∧
      ∀ body, looped { stateMacros fun _ _ => [.comma] with body := body } [] [.number "0"]
          [[.word "a"], [.word "b"]] =
        documented { stateMacros fun _ _ => [.comma] with body := body } [] [.number "0"]
          [[.word "a"], [.word "b"]] := by
  have hword : Inert table stateUses [.word "FP_COMMA"] :=
    ⟨.inr ⟨by decide, by simp, fpComma, header_table.defines fpComma (by simp [macrosHpp]), rfl⟩, trivial⟩
  have provides : Provides table stateUses (stateNames "FP_COMMA") (stateMacros fun _ _ => [.comma]) [] :=
    provides_state hword fun s hs => computes_comma header_table (by decide) (value_plain value_nil)
      ⟨hs.isArg.balanced, hs.inert⟩
  have hidle : Free (loopNames ++ stateUses) [] [] := fun _ _ => List.not_mem_nil
  have h := seqForeach_documented_iff setting_state provides hidle element_stateLoop value_zero provides.context.isArg
    value_zero.isArg (sequence_isArg element_stateLoop) expands_nil (expands_plain value_zero.inert)
    expands_sequence_stateLoop expands_nil
  exact ⟨h.1.mpr rfl, h.2.mpr fun _ _ => rfl⟩

/-- With `FP_STATE` for its separator too the loop is `0, a old_step 0, b`, not `0, a 0 0, b`. -/
theorem not_seqForeach_documented :
    Provides table stateUses (stateNames "FP_STATE") (stateMacros fun _ s => s) [] ∧
      documented (stateMacros fun _ s => s) [] [.number "0"] [[.word "a"], [.word "b"]] =
        [.number "0", .comma, .word "a", .number "0", .number "0", .comma, .word "b"] ∧
      Expands table [] (stateLoop "FP_STATE")
        [.number "0", .comma, .word "a", .word "old_step", .number "0", .comma, .word "b"] ∧
      ¬ Expands table [] (stateLoop "FP_STATE")
        (documented (stateMacros fun _ s => s) [] [.number "0"] [[.word "a"], [.word "b"]]) := by
  have provides : Provides table stateUses (stateNames "FP_STATE") (stateMacros fun _ s => s) [] :=
    provides_state inert_fpState fun _ hs => computes_state_value hs
  have hscope : Scope stateUses [] [] [] := ⟨fun _ _ hmem => absurd hmem List.not_mem_nil, List.nil_subset _⟩
  have h := expands_seqForeach setting_state provides hscope element_stateLoop value_zero provides.context.isArg
    value_zero.isArg (sequence_isArg element_stateLoop) expands_nil (expands_plain value_zero.inert)
    expands_sequence_stateLoop expands_nil
  exact ⟨provides, rfl, h, fun hdocumented => absurd (h.unique hdocumented) (by decide)⟩

end Example

end Fipper.Macros
