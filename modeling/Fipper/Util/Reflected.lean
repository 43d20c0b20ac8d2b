import Fipper.Util.VarToSeq
import Fipper.Lib.Numeral

/-!
# Reflected structs

`FP_REFLECTED_STRUCT(name, (type0) name0, ...)` of `macros.hpp`.

* `reflectedHpp` : its macros, and `structText` : the struct they make, around its traversals of the members;
* `headersTable` : the macros of both headers, and `reflectedHeader_headersTable` : no two have one name;
* `computes_member…` : what the traversals make of a member; `part_…` : what they make of all of them;
* `computes_reflectedStruct` : the struct; `reflectedStruct_lists` : what it lists.
-/

namespace Fipper.Macros

open Lib.Preprocessor

/-! ## The macros -/

def lbrace : Token := .other "\x7b"

def rbrace : Token := .other "\x7d"

def langle : Token := .other "<"

def rangle : Token := .other ">"

def semicolon : Token := .other ";"

def scope : Token := .other "::"

def std (name : String) : Text := [.word "std", scope, .word name]

def constexprStatic : Text := [.word "constexpr", .word "static"]

/-- The struct, around what the traversals of the members make. -/
def structText (name declarations count pointerTypes pointers names types : Text) : Text :=
  [.word "struct"] ++ name ++ [lbrace] ++ declarations ++
    (constexprStatic ++ [.word "bool", .word "HAS_REFLECTION", lbrace, .word "true", rbrace, semicolon]) ++
    (constexprStatic ++ std "size_t" ++ [.word "MEMBERS_COUNT", lbrace]) ++ count ++
    ([rbrace, semicolon] ++ constexprStatic ++ std "tuple" ++ [langle]) ++ pointerTypes ++
    [rangle, .word "MEMBERS_PTRS", lbrace] ++ pointers ++
    ([rbrace, semicolon] ++ constexprStatic ++ std "array" ++ [langle] ++ std "string_view" ++
      [.comma, .word "MEMBERS_COUNT", rangle, .word "MEMBERS_NAMES", lbrace]) ++ names ++
    ([rbrace, semicolon, .word "using", .word "MembersTypes", .other "="] ++ std "tuple" ++ [langle]) ++ types ++
    [rangle, semicolon, rbrace]

/-- The words of the struct. -/
def structWords : List String :=
  ["struct", "constexpr", "static", "bool", "HAS_REFLECTION", "true", "std", "size_t", "MEMBERS_COUNT", "tuple",
    "MEMBERS_PTRS", "array", "string_view", "MEMBERS_NAMES", "using", "MembersTypes"]

def fpReflectedStruct : Macro := ⟨"FP_REFLECTED_STRUCT", some 1, true, fun
  | [name, vaArgs] => some (invoke [.word "FP_REFLECTED_STRUCT_SEQ"] [name.expanded]
      (invoke [.word "FP_VAR_TO_SEQ"] [] (vaArgs.expanded ++ [.rparen, .rparen])))
  | _ => none⟩

/-- `FP_SEQ_FOREACH_BODY_WITH_SEP(body, FP_COMMA, ctx, members)`. -/
def withCommas (body : String) (ctx members : Text) : Text :=
  invoke [.word "FP_SEQ_FOREACH_BODY_WITH_SEP"] [[.word body], [.word "FP_COMMA"], ctx] (members ++ [.rparen])

def fpReflectedStructSeq : Macro := ⟨"FP_REFLECTED_STRUCT_SEQ", some 2, false, fun
  | [name, members] => some (structText name.expanded
      (invoke [.word "FP_SEQ_FOREACH_BODY"] [[.word "FP_REFLECTED_STRUCT_CREATE_MEMBER"], []]
        (members.expanded ++ [.rparen]))
      (invoke [.word "FP_SEQ_FOREACH_STEP"]
        [[.word "FP_REFLECTED_STRUCT_COUNT_MEMBERS_STEP"], [.word "FP_STATE"], [], [.number "0"]]
        (members.expanded ++ [.rparen]))
      (withCommas "FP_REFLECTED_STRUCT_MEMBER_POINTER_TYPE" name.expanded members.expanded)
      (withCommas "FP_REFLECTED_STRUCT_MEMBER_POINTER" name.expanded members.expanded)
      (withCommas "FP_REFLECTED_STRUCT_MEMBER_NAME" [] members.expanded)
      (withCommas "FP_REFLECTED_STRUCT_MEMBER_TYPE" [] members.expanded))
  | _ => none⟩

def fpReflectedStructExtractType : Macro := ⟨"FP_REFLECTED_STRUCT_EXTRACT_TYPE", some 1, false, fun
  | [expr] => some (invoke [.word "FP_PARENTHESIS_REMOVER"] []
      (invoke [.word "FP_REFLECTED_STRUCT_EXTRACT_TYPE_AT_0_INTERFACE"] []
        (.word "FP_REFLECTED_STRUCT_EXTRACT_TYPE_COMMA_INSERTER" :: (expr.expanded ++ [.rparen, .rparen]))))
  | _ => none⟩

def fpReflectedStructExtractTypeCommaInserter : Macro :=
  ⟨"FP_REFLECTED_STRUCT_EXTRACT_TYPE_COMMA_INSERTER", some 0, true, fun
  | [vaArgs] => some (.lparen :: (vaArgs.expanded ++ [.rparen, .comma]))
  | _ => none⟩

def fpReflectedStructExtractTypeAt0Interface : Macro :=
  ⟨"FP_REFLECTED_STRUCT_EXTRACT_TYPE_AT_0_INTERFACE", some 0, true, fun
  | [vaArgs] => some (invoke [.word "FP_REFLECTED_STRUCT_EXTRACT_TYPE_AT_0"] [] (vaArgs.expanded ++ [.rparen]))
  | _ => none⟩

def fpReflectedStructExtractTypeAt0 : Macro := ⟨"FP_REFLECTED_STRUCT_EXTRACT_TYPE_AT_0", some 1, true, fun
  | [x, _vaArgs] => some x.expanded
  | _ => none⟩

def fpReflectedStructExtractVar : Macro := ⟨"FP_REFLECTED_STRUCT_EXTRACT_VAR", some 1, false, fun
  | [expr] => some (.word "FP_NULL" :: expr.expanded)
  | _ => none⟩

def fpReflectedStructCountMembersStep : Macro := ⟨"FP_REFLECTED_STRUCT_COUNT_MEMBERS_STEP", some 2, false, fun
  | [_ctx, stepCtx] => some (stepCtx.expanded ++ [.other "+", .number "1"])
  | _ => none⟩

def fpReflectedStructMemberPointerType : Macro := ⟨"FP_REFLECTED_STRUCT_MEMBER_POINTER_TYPE", some 2, true, fun
  | [ctx, _stepCtx, vaArgs] => some (invoke [.word "FP_REFLECTED_STRUCT_EXTRACT_TYPE"] []
      (vaArgs.expanded ++ .rparen :: (ctx.expanded ++ [scope, .other "*"])))
  | _ => none⟩

def fpReflectedStructMemberPointer : Macro := ⟨"FP_REFLECTED_STRUCT_MEMBER_POINTER", some 2, true, fun
  | [ctx, _stepCtx, vaArgs] => some ([.other "&"] ++ (ctx.expanded ++ ([scope] ++
      invoke [.word "FP_REFLECTED_STRUCT_EXTRACT_VAR"] [] (vaArgs.expanded ++ [.rparen]))))
  | _ => none⟩

def fpReflectedStructMemberName : Macro := ⟨"FP_REFLECTED_STRUCT_MEMBER_NAME", some 2, true, fun
  | [_ctx, _stepCtx, vaArgs] => some (invoke [.word "FP_STRINGIFY"] []
      (invoke [.word "FP_REFLECTED_STRUCT_EXTRACT_VAR"] [] (vaArgs.expanded ++ [.rparen, .rparen])))
  | _ => none⟩

def fpReflectedStructMemberType : Macro := ⟨"FP_REFLECTED_STRUCT_MEMBER_TYPE", some 2, true, fun
  | [_ctx, _stepCtx, vaArgs] => some (invoke [.word "FP_REFLECTED_STRUCT_EXTRACT_TYPE"] []
      (vaArgs.expanded ++ [.rparen]))
  | _ => none⟩

def fpReflectedStructCreateMember : Macro := ⟨"FP_REFLECTED_STRUCT_CREATE_MEMBER", some 2, true, fun
  | [_ctx, _stepCtx, vaArgs] => some (.word "FP_IDENTITY" :: (vaArgs.expanded ++ [semicolon]))
  | _ => none⟩

/-- The macros above. -/
def reflectedHpp : List Macro :=
  [fpReflectedStruct, fpReflectedStructSeq, fpReflectedStructExtractType, fpReflectedStructExtractTypeCommaInserter,
    fpReflectedStructExtractTypeAt0Interface, fpReflectedStructExtractTypeAt0, fpReflectedStructExtractVar,
    fpReflectedStructCountMembersStep, fpReflectedStructMemberPointerType, fpReflectedStructMemberPointer,
    fpReflectedStructMemberName, fpReflectedStructMemberType, fpReflectedStructCreateMember]

/-- Both headers are defined, and the words in them are no macros. -/
structure ReflectedHeader (macros : String → Option Macro) (amount : Nat) : Prop extends Header macros where
  generated : Defines macros (macroVarToSeqHpp amount)
  reflected : Defines macros reflectedHpp
  stem : macros "FP_VAR_TO_SEQ_" = none
  struct : ∀ w ∈ structWords, macros w = none

/-! ## The headers -/

/-- Both headers. -/
def headers (amount : Nat) : List Macro := macrosHpp ++ reflectedHpp ++ macroVarToSeqHpp amount

/-- Their macros and no others. -/
def headersTable (amount : Nat) : String → Option Macro := fun name => (headers amount).find? fun m => m.name = name

/-- The names of `macros.hpp` are not generated. -/
theorem names_unnumbered : ∀ name ∈ (macrosHpp ++ reflectedHpp).map Macro.name,
    Unnumbered name ∧ name ∉ ["FP_VAR_SIZE", "FP_VAR_TO_SEQ"] := by decide +kernel

theorem nodup_headers (amount : Nat) : ((headers amount).map Macro.name).Nodup := by
  have hnames : ((macrosHpp ++ reflectedHpp).map Macro.name).Nodup := by decide +kernel
  rw [headers, List.map_append]
  refine List.nodup_append.mpr ⟨hnames, nodup_macroVarToSeqHpp amount, ?_⟩
  rintro name hname _ hgenerated rfl
  exact notMem_macroVarToSeqHpp (names_unnumbered name hname).1 (names_unnumbered name hname).2 hgenerated

theorem headersTable_eq_none {amount : Nat} {name : String} (hname : name ∉ (macrosHpp ++ reflectedHpp).map Macro.name)
    (hgenerated : name ∉ (macroVarToSeqHpp amount).map Macro.name) : headersTable amount name = none := by
  refine List.find?_eq_none.mpr fun m hm heq => ?_
  have hmem : m.name ∈ (headers amount).map Macro.name := List.mem_map_of_mem hm
  rw [of_decide_eq_true heq, headers, List.map_append] at hmem
  exact (List.mem_append.mp hmem).elim hname hgenerated

/-- Whatever the amount, the headers are consistent. -/
theorem reflectedHeader_headersTable (amount : Nat) : ReflectedHeader (headersTable amount) amount := by
  have hdefines : Defines (headersTable amount) (headers amount) := defines_of_nodup (nodup_headers amount)
  have hnone : ∀ name ∈ ["FP_IMPROVED_GUIDE_END_MARK", "old_step"] ++ structWords, headersTable amount name = none := by
    have hnames : ∀ name ∈ ["FP_IMPROVED_GUIDE_END_MARK", "old_step"] ++ structWords,
        name ∉ (macrosHpp ++ reflectedHpp).map Macro.name ∧ Unnumbered name ∧
          name ∉ ["FP_VAR_SIZE", "FP_VAR_TO_SEQ"] := by decide +kernel
    intro name hname
    obtain ⟨hmacros, hunnumbered, hother⟩ := hnames name hname
    exact headersTable_eq_none hmacros (notMem_macroVarToSeqHpp hunnumbered hother)
  exact {
    defines := fun m hm => hdefines m (List.mem_append_left _ (List.mem_append_left _ hm))
    endMark := hnone _ (by decide)
    oldStep := hnone _ (by decide)
    generated := fun m hm => hdefines m (List.mem_append_right _ hm)
    reflected := fun m hm => hdefines m (List.mem_append_left _ (List.mem_append_right _ hm))
    stem := headersTable_eq_none (by decide +kernel) (stem_notMem amount)
    struct := fun w hw => hnone w (List.mem_append_right _ hw) }

/-! ## A member -/

/-- `(type) name`. -/
structure Member where
  type : Text
  name : String

def Member.text (m : Member) : Text := .lparen :: (m.type ++ [.rparen, .word m.name])

/-- There is no macro in a member. -/
structure Member.Plain (macros : String → Option Macro) (m : Member) : Prop where
  balanced : Balanced m.type
  inert : Inert macros [] m.type
  name : macros m.name = none

variable {macros : String → Option Macro} {amount : Nat} {uses : List String}

section Member
variable {m : Member}

theorem Member.Plain.isArg (hm : m.Plain macros) : IsArg m.text := by
  have hname : IsArg [.word m.name] := rfl
  have happend := hm.balanced.parenthesised.append hname
  simpa [Member.text] using happend

theorem Member.Plain.inert_text (hm : m.Plain macros) : Inert macros [] m.text := by
  have hname : Inert macros [] [.rparen, .word m.name] := ⟨.inl hm.name, trivial⟩
  exact hm.inert.append hname (by simp)

theorem Member.Plain.stands_name (hm : m.Plain macros) : Stands macros uses [.word m.name] [.word m.name] :=
  stands_plain ⟨.inl hm.name, trivial⟩

/-- A macro that takes a member alone. -/
theorem computes_expr {b : Macro} {name : String} {uses' : List String} {text result : Text}
    (hname : macros name = some b) (hparams : b.params = some 1) (hvariadic : b.variadic = false) (huse : name ∈ uses)
    (hsub : uses' ⊆ uses) (hnot : name ∉ uses') (hm : m.Plain macros)
    (hreplace : b.replace [⟨m.text, m.text⟩] = some text) (htext : Stands macros uses' text result) :
    Computes macros uses [.word name] [] m.text result := by
  have hargs : ∀ a ∈ [m.text], Inert macros [] a := by simpa using hm.inert_text
  refine computes_call hname hparams huse hsub hnot (List.forall_mem_nil _) (doneNames_of_inert hm.inert_text)
    (fun rest => ?_) (fun _ _ => forall₂_plain hargs) hreplace htext
  rw [hvariadic]
  exact reads_named rfl (List.forall_mem_nil _) hm.isArg

/-- The macros that take a member's name out of it. -/
def extractVarNames : List String := ["FP_REFLECTED_STRUCT_EXTRACT_VAR", "FP_NULL"]

theorem computes_extractVar (header : ReflectedHeader macros amount) (huse : extractVarNames ⊆ uses)
    (hm : m.Plain macros) :
    Computes macros uses [.word "FP_REFLECTED_STRUCT_EXTRACT_VAR"] [] m.text [.word m.name] := by
  have hnull : Computes macros ["FP_NULL"] [.word "FP_NULL"] [] m.type [] :=
    computes_null header.toHeader (by decide) (List.forall_mem_nil _) ⟨hm.balanced, hm.inert⟩
  refine computes_expr (header.reflected fpReflectedStructExtractVar (by simp [reflectedHpp])) rfl rfl
    (huse (List.mem_cons_self ..)) (List.subset_of_cons_subset huse) (by decide) hm rfl ?_
  simpa [Member.text, invoke, listed] using hnull.stands.append hm.stands_name rfl

/-- The type in its parentheses. -/
def Member.parenthesised (m : Member) : Text := .lparen :: (m.type ++ [.rparen])

theorem Member.Plain.parenthesised_isArg (hm : m.Plain macros) : IsArg m.parenthesised := hm.balanced.parenthesised

theorem Member.Plain.inert_parenthesised (hm : m.Plain macros) : Inert macros [] m.parenthesised :=
  hm.inert.append (b := [.rparen]) trivial (by simp)

/-- A comma is put between the type and the name. -/
theorem stands_commaInserter (header : ReflectedHeader macros amount) (hm : m.Plain macros) :
    Stands macros ["FP_REFLECTED_STRUCT_EXTRACT_TYPE_COMMA_INSERTER"]
      (.word "FP_REFLECTED_STRUCT_EXTRACT_TYPE_COMMA_INSERTER" :: m.text)
      (listed [m.parenthesised] [.word m.name]) := by
  have hinserter : Computes macros ["FP_REFLECTED_STRUCT_EXTRACT_TYPE_COMMA_INSERTER"]
      [.word "FP_REFLECTED_STRUCT_EXTRACT_TYPE_COMMA_INSERTER"] [] m.type (.lparen :: (m.type ++ [.rparen, .comma])) :=
    computes_variadic (header.reflected fpReflectedStructExtractTypeCommaInserter (by simp [reflectedHpp])) rfl rfl
      (List.mem_singleton_self _) (List.forall_mem_nil _) ⟨hm.balanced, hm.inert⟩ rfl
      (hm.inert.append (b := [.rparen, .comma]) trivial (by simp))
  simpa [Member.text, Member.parenthesised, invoke, listed] using hinserter.stands.append hm.stands_name rfl

theorem computes_at0 (header : ReflectedHeader macros amount) (hm : m.Plain macros) :
    Computes macros ["FP_REFLECTED_STRUCT_EXTRACT_TYPE_AT_0"] [.word "FP_REFLECTED_STRUCT_EXTRACT_TYPE_AT_0"]
      [m.parenthesised] [.word m.name] m.parenthesised := by
  have hname : Inert macros [] [.word m.name] := ⟨.inl hm.name, trivial⟩
  have has : ∀ a ∈ [m.parenthesised], IsArg a := by simpa using hm.parenthesised_isArg
  have hargs : ∀ a ∈ [m.parenthesised, [.word m.name]], Inert macros [] a := by
    simpa using ⟨hm.inert_parenthesised, hname⟩
  have hword : Balanced [.word m.name] := rfl
  exact computes_of_replace (header.reflected fpReflectedStructExtractTypeAt0 (by simp [reflectedHpp])) rfl
    (List.mem_singleton_self _) has hname (fun rest => reads_variadic rfl has (reads_balanced hword)) hargs rfl
    hm.inert_parenthesised

/-- The macros that take the first of two arguments. -/
def at0Names : List String :=
  ["FP_REFLECTED_STRUCT_EXTRACT_TYPE_AT_0_INTERFACE", "FP_REFLECTED_STRUCT_EXTRACT_TYPE_COMMA_INSERTER",
    "FP_REFLECTED_STRUCT_EXTRACT_TYPE_AT_0"]

theorem computes_at0Interface (header : ReflectedHeader macros amount) (hm : m.Plain macros) :
    Computes macros at0Names [.word "FP_REFLECTED_STRUCT_EXTRACT_TYPE_AT_0_INTERFACE"] []
      (.word "FP_REFLECTED_STRUCT_EXTRACT_TYPE_COMMA_INSERTER" :: m.text) m.parenthesised := by
  have hinserter : Stands macros at0Names _ _ := (stands_commaInserter header hm).mono (by decide)
  have hsub : ["FP_REFLECTED_STRUCT_EXTRACT_TYPE_AT_0"] ⊆ at0Names := by decide
  refine computes_vaArgs (header.reflected fpReflectedStructExtractTypeAt0Interface (by simp [reflectedHpp])) rfl rfl
    (by decide) hsub (by decide) hm.isArg.balanced (fun _ => hinserter.expands) rfl ?_
  simpa [invoke, listed] using (computes_at0 header hm).stands

theorem computes_identity (header : Header macros) (huse : "FP_IDENTITY" ∈ uses) {a : Text} (ha : Balanced a)
    (hplain : Inert macros [] a) : Computes macros uses [.word "FP_IDENTITY"] [] a a :=
  computes_variadic (header.defines fpIdentity (by simp [macrosHpp])) rfl rfl huse (List.forall_mem_nil _)
    ⟨ha, hplain⟩ rfl hplain

/-- The macros that take a member's type out of it. -/
def extractTypeNames : List String :=
  ["FP_REFLECTED_STRUCT_EXTRACT_TYPE", "FP_PARENTHESIS_REMOVER", "FP_IDENTITY"] ++ at0Names

theorem computes_extractType (header : ReflectedHeader macros amount) (huse : extractTypeNames ⊆ uses)
    (hm : m.Plain macros) :
    Computes macros uses [.word "FP_REFLECTED_STRUCT_EXTRACT_TYPE"] [] m.text m.type := by
  have hidentity : Computes macros ["FP_IDENTITY"] [.word "FP_IDENTITY"] [] m.type m.type :=
    computes_identity header.toHeader (List.mem_singleton_self _) hm.balanced hm.inert
  have hinterface : Stands macros extractTypeNames.tail _ _ := (computes_at0Interface header hm).stands.mono (by decide)
  have hcall : Balanced (invoke [.word "FP_REFLECTED_STRUCT_EXTRACT_TYPE_AT_0_INTERFACE"] []
      (.word "FP_REFLECTED_STRUCT_EXTRACT_TYPE_COMMA_INSERTER" :: m.text ++ [.rparen])) :=
    (invoke_isArg _ (List.forall_mem_nil _) hm.isArg.balanced).balanced
  have hsub : ["FP_IDENTITY"] ⊆ extractTypeNames.tail := by decide
  -- the parentheses are removed when the type is alone
  have hremover : Computes macros extractTypeNames.tail [.word "FP_PARENTHESIS_REMOVER"] []
      (invoke [.word "FP_REFLECTED_STRUCT_EXTRACT_TYPE_AT_0_INTERFACE"] []
        (.word "FP_REFLECTED_STRUCT_EXTRACT_TYPE_COMMA_INSERTER" :: m.text ++ [.rparen])) m.type := by
    refine computes_vaArgs (header.defines fpParenthesisRemover (by simp [macrosHpp])) rfl rfl (by decide) hsub
      (by decide) hcall (fun _ => hinterface.expands) rfl ?_
    simpa [invoke, listed, Member.parenthesised] using hidentity.stands
  refine computes_expr (header.reflected fpReflectedStructExtractType (by simp [reflectedHpp])) rfl rfl
    (huse (List.mem_cons_self ..)) (List.subset_of_cons_subset huse) (by decide) hm rfl ?_
  simpa [invoke, listed, extractTypeNames] using hremover.stands

/-! ## What the traversals make of a member -/

section Body
variable {ctx s : Text}

/-- A body that takes a context, a step context and a member. -/
theorem computes_member {b : Macro} {name : String} {uses' : List String} {text result : Text}
    (hname : macros name = some b) (hparams : b.params = some 2) (hvariadic : b.variadic = true) (huse : name ∈ uses)
    (hsub : uses' ⊆ uses) (hnot : name ∉ uses') (hctx : Value macros [] ctx) (hs : Value macros [] s)
    (hm : m.Plain macros) (hreplace : b.replace [⟨ctx, ctx⟩, ⟨s, s⟩, ⟨m.text, m.text⟩] = some text)
    (htext : Stands macros uses' text result) : Computes macros uses [.word name] [ctx, s] m.text result := by
  have has : ∀ a ∈ [ctx, s], IsArg a := by simpa using ⟨hctx.isArg, hs.isArg⟩
  have hargs : ∀ a ∈ [ctx, s, m.text], Inert macros [] a := by simpa using ⟨hctx.inert, hs.inert, hm.inert_text⟩
  refine computes_call hname hparams huse hsub hnot has (doneNames_of_inert hm.inert_text) (fun rest => ?_)
    (fun _ _ => forall₂_plain hargs) hreplace htext
  rw [hvariadic]
  exact reads_variadic rfl has (reads_balanced hm.isArg.balanced)

/-- `type name;`. -/
def Member.declaration (m : Member) : Text := m.type ++ [.word m.name, semicolon]

/-- `type name::*`, of the struct of this name. -/
def Member.pointerType (struct : Text) (m : Member) : Text := m.type ++ (struct ++ [scope, .other "*"])

/-- `&struct::name`. -/
def Member.pointer (struct : Text) (m : Member) : Text := [.other "&"] ++ (struct ++ ([scope] ++ [.word m.name]))

/-- `"name"`. -/
def Member.quoted (m : Member) : Text := [.string m.name]

theorem computes_createMember (header : ReflectedHeader macros amount)
    (huse : ["FP_REFLECTED_STRUCT_CREATE_MEMBER", "FP_IDENTITY"] ⊆ uses) (hctx : Value macros [] ctx)
    (hs : Value macros [] s) (hm : m.Plain macros) :
    Computes macros uses [.word "FP_REFLECTED_STRUCT_CREATE_MEMBER"] [ctx, s] m.text m.declaration := by
  have hidentity : Computes macros ["FP_IDENTITY"] [.word "FP_IDENTITY"] [] m.type m.type :=
    computes_identity header.toHeader (List.mem_singleton_self _) hm.balanced hm.inert
  have hname : Stands macros ["FP_IDENTITY"] [.word m.name, semicolon] [.word m.name, semicolon] :=
    stands_plain ⟨.inl hm.name, trivial⟩
  refine computes_member (header.reflected fpReflectedStructCreateMember (by simp [reflectedHpp])) rfl rfl
    (huse (List.mem_cons_self ..)) (List.subset_of_cons_subset huse) (by decide) hctx hs hm rfl ?_
  simpa [invoke, listed, Member.text, Member.declaration] using hidentity.stands.append hname rfl

theorem computes_memberType (header : ReflectedHeader macros amount)
    (huse : "FP_REFLECTED_STRUCT_MEMBER_TYPE" :: extractTypeNames ⊆ uses) (hctx : Value macros [] ctx)
    (hs : Value macros [] s) (hm : m.Plain macros) :
    Computes macros uses [.word "FP_REFLECTED_STRUCT_MEMBER_TYPE"] [ctx, s] m.text m.type :=
  computes_member (header.reflected fpReflectedStructMemberType (by simp [reflectedHpp])) rfl rfl
    (huse (List.mem_cons_self ..)) (List.subset_of_cons_subset huse) (by decide) hctx hs hm rfl
    (computes_extractType header (List.Subset.refl _) hm).stands

theorem computes_memberPointerType (header : ReflectedHeader macros amount)
    (huse : "FP_REFLECTED_STRUCT_MEMBER_POINTER_TYPE" :: extractTypeNames ⊆ uses) (hctx : Value macros [] ctx)
    (hs : Value macros [] s) (hm : m.Plain macros) :
    Computes macros uses [.word "FP_REFLECTED_STRUCT_MEMBER_POINTER_TYPE"] [ctx, s] m.text (m.pointerType ctx) := by
  have htype : Computes macros extractTypeNames _ _ _ m.type := computes_extractType header (List.Subset.refl _) hm
  have hctx' : Inert macros [] (ctx ++ [scope, .other "*"]) := hctx.inert.append trivial (by decide)
  refine computes_member (header.reflected fpReflectedStructMemberPointerType (by simp [reflectedHpp])) rfl rfl
    (huse (List.mem_cons_self ..)) (List.subset_of_cons_subset huse) (by decide) hctx hs hm rfl ?_
  simpa [invoke, listed, Member.pointerType] using htype.stands.append (stands_plain hctx') (doneNames_of_inert hctx')

theorem computes_memberPointer (header : ReflectedHeader macros amount)
    (huse : "FP_REFLECTED_STRUCT_MEMBER_POINTER" :: extractVarNames ⊆ uses) (hctx : Value macros [] ctx)
    (hs : Value macros [] s) (hm : m.Plain macros) :
    Computes macros uses [.word "FP_REFLECTED_STRUCT_MEMBER_POINTER"] [ctx, s] m.text (m.pointer ctx) := by
  have hvar : Computes macros extractVarNames _ _ _ [.word m.name] := computes_extractVar header (List.Subset.refl _) hm
  have hctx' : Inert macros [] ([.other "&"] ++ (ctx ++ [scope])) :=
    hctx.inert.append (b := [scope]) trivial (by decide)
  have hcall := invoke_isArg "FP_REFLECTED_STRUCT_EXTRACT_VAR" (List.forall_mem_nil _) hm.isArg.balanced
  refine computes_member (header.reflected fpReflectedStructMemberPointer (by simp [reflectedHpp])) rfl rfl
    (huse (List.mem_cons_self ..)) (List.subset_of_cons_subset huse) (by decide) hctx hs hm rfl ?_
  simpa [Member.pointer] using (stands_plain hctx').append hvar.stands (doneNames_of_level hcall)

theorem stringify_word (name : String) : stringify [.word name] = .string name := by
  simp [stringify, String.join, Token.spelling]

theorem computes_stringify_ (header : Header macros) (hm : m.Plain macros) :
    Computes macros ["FP_STRINGIFY_"] [.word "FP_STRINGIFY_"] [] [.word m.name] m.quoted := by
  have hname : Balanced [.word m.name] ∧ Inert macros [] [.word m.name] := ⟨rfl, .inl hm.name, trivial⟩
  refine computes_variadic (header.defines fpStringify_ (by simp [macrosHpp])) rfl rfl (List.mem_singleton_self _)
    (List.forall_mem_nil _) hname ?_ trivial
  rw [Member.quoted, ← stringify_word]
  rfl

/-- The macros that make a member's name a string. -/
def stringifyNames : List String := ["FP_STRINGIFY", "FP_STRINGIFY_"] ++ extractVarNames

/-- The name is taken out of the member before it is made a string. -/
theorem computes_stringify (header : ReflectedHeader macros amount) (hm : m.Plain macros) :
    Computes macros stringifyNames [.word "FP_STRINGIFY"] []
      (invoke [.word "FP_REFLECTED_STRUCT_EXTRACT_VAR"] [] (m.text ++ [.rparen])) m.quoted := by
  have hvar : Computes macros stringifyNames _ _ _ [.word m.name] := computes_extractVar header (by decide) hm
  have hcall : Balanced (invoke [.word "FP_REFLECTED_STRUCT_EXTRACT_VAR"] [] (m.text ++ [.rparen])) :=
    (invoke_isArg _ (List.forall_mem_nil _) hm.isArg.balanced).balanced
  have hsub : ["FP_STRINGIFY_"] ⊆ stringifyNames := by decide
  refine computes_vaArgs (header.defines fpStringify (by simp [macrosHpp])) rfl rfl (by decide) hsub (by decide)
    hcall (fun _ => hvar.stands.expands) rfl ?_
  exact (computes_stringify_ header.toHeader hm).stands

theorem computes_memberName (header : ReflectedHeader macros amount)
    (huse : "FP_REFLECTED_STRUCT_MEMBER_NAME" :: stringifyNames ⊆ uses) (hctx : Value macros [] ctx)
    (hs : Value macros [] s) (hm : m.Plain macros) :
    Computes macros uses [.word "FP_REFLECTED_STRUCT_MEMBER_NAME"] [ctx, s] m.text m.quoted := by
  refine computes_member (header.reflected fpReflectedStructMemberName (by simp [reflectedHpp])) rfl rfl
    (huse (List.mem_cons_self ..)) (List.subset_of_cons_subset huse) (by decide) hctx hs hm rfl ?_
  simpa [invoke, listed] using (computes_stringify header hm).stands

theorem computes_countMembersStep (header : ReflectedHeader macros amount)
    (huse : "FP_REFLECTED_STRUCT_COUNT_MEMBERS_STEP" ∈ uses) (hctx : Value macros [] ctx) (hs : Value macros [] s) :
    Computes macros uses [.word "FP_REFLECTED_STRUCT_COUNT_MEMBERS_STEP"] [ctx] s (s ++ [.other "+", .number "1"]) := by
  have has : ∀ a ∈ [ctx], IsArg a := by simpa using hctx.isArg
  have hargs : ∀ a ∈ [ctx, s], Inert macros [] a := by simpa using ⟨hctx.inert, hs.inert⟩
  exact computes_of_replace (header.reflected fpReflectedStructCountMembersStep (by simp [reflectedHpp])) rfl huse has
    hs.inert (fun rest => reads_named rfl has hs.isArg) hargs rfl (hs.inert.append trivial (by simp))

end Body

end Member

/-! ## The traversals -/

/-- The member of this text. -/
def Member.ofText (e : Text) : Member where
  type := e.tail.dropLast.dropLast
  name := match e.getLast? with
    | some (.word name) => name
    | _ => ""

theorem Member.ofText_text (m : Member) : Member.ofText m.text = m := by
  have htext : m.text = .lparen :: m.type ++ [.rparen] ++ [.word m.name] := by simp [Member.text]
  have htype : m.text.tail.dropLast.dropLast = m.type := by simp [Member.text, List.dropLast_append_of_ne_nil]
  have hname : m.text.getLast? = some (.word m.name) := by rw [htext, List.getLast?_concat]
  rw [Member.ofText, htype, hname]

/-- What a body makes of members, with a separator, and without a step. -/
def memberLoop (macros : String → Option Macro) (result : Member → Text) (separator : Text) : LoopMacros where
  contexts s := s = []
  elements e := ∃ m : Member, m.Plain macros ∧ m.text = e
  body _ _ e := result (Member.ofText e)
  step _ _ := []
  final _ _ := []
  separator _ _ := separator

theorem looped_memberLoop (result : Member → Text) (separator ctx : Text) (ms : List Member) :
    looped (memberLoop macros result separator) ctx [] (ms.map Member.text) =
      separator.intercalate (ms.map result) := by
  induction ms with
  | nil => rfl
  | cons m ms ih =>
      have hfirst : looped (memberLoop macros result separator) ctx [] ((m :: ms).map Member.text) =
          result m ++ later (memberLoop macros result separator) ctx [] (ms.map Member.text) := by
        show result (Member.ofText m.text) ++ _ = _
        rw [Member.ofText_text]
        rfl
      rw [hfirst]
      cases ms with
      | nil =>
          show result m ++ [] = separator.intercalate [result m]
          rw [List.append_nil, List.intercalate_singleton]
      | cons next ms =>
          have hnext : later (memberLoop macros result separator) ctx [] ((next :: ms).map Member.text) =
              separator ++ looped (memberLoop macros result separator) ctx [] ((next :: ms).map Member.text) := rfl
          rw [hnext, ih]
          simp only [List.map_cons, List.intercalate_cons_cons, List.append_assoc]

/-- `0+1+...+1`. -/
def counted (n : Nat) : Text := .number "0" :: (List.replicate n [.other "+", .number "1"]).flatten

theorem counted_succ (n : Nat) : counted (n + 1) = counted n ++ [.other "+", .number "1"] := by
  rw [counted, List.replicate_succ', List.flatten_append]
  rfl

/-- The value of a sum, from what is before it. -/
def plus (acc : Nat) : Text → Option Nat
  | [] => some acc
  | .other "+" :: .number digits :: ts => (Lib.number digits.toList).bind fun n => plus (acc + n) ts
  | _ => none

/-- The value of a sum of numbers. -/
def sumValue : Text → Option Nat
  | .number digits :: ts => (Lib.number digits.toList).bind fun n => plus n ts
  | _ => none

theorem plus_ones (acc n : Nat) :
    plus acc (List.replicate n [Token.other "+", .number "1"]).flatten = some (acc + n) := by
  induction n generalizing acc with
  | zero => rfl
  | succ n ih =>
      have hone : Lib.number "1".toList = some 1 := Lib.number_repr 1
      rw [List.replicate_succ, List.flatten_cons, List.cons_append, List.cons_append, List.nil_append, plus, hone,
        Option.bind_some, ih]
      congr 1
      omega

theorem sumValue_counted (n : Nat) : sumValue (counted n) = some n := by
  have hzero : Lib.number "0".toList = some 0 := Lib.number_repr 0
  rw [counted, sumValue, hzero, Option.bind_some, plus_ones, Nat.zero_add]

/-- The step that counts members, and the sum as the final. -/
def countLoop (macros : String → Option Macro) : LoopMacros where
  contexts s := Value macros [] s
  elements e := ∃ m : Member, m.Plain macros ∧ m.text = e
  body _ _ _ := []
  step _ s := s ++ [.other "+", .number "1"]
  final _ s := s
  separator _ _ := []

theorem looped_countLoop (ctx : Text) (n : Nat) (es : List Text) :
    looped (countLoop macros) ctx (counted n) es = counted (n + es.length) := by
  induction es generalizing n with
  | nil => rfl
  | cons e es ih =>
      have hlater : later (countLoop macros) ctx (counted (n + 1)) es =
          looped (countLoop macros) ctx (counted (n + 1)) es := by cases es <;> rfl
      show later (countLoop macros) ctx (counted n ++ [.other "+", .number "1"]) es = _
      rw [← counted_succ, hlater, ih, List.length_cons]
      congr 1
      omega

/-- The macros that the traversals call. -/
def traversalNames : List String :=
  ["FP_REFLECTED_STRUCT_CREATE_MEMBER", "FP_REFLECTED_STRUCT_COUNT_MEMBERS_STEP",
    "FP_REFLECTED_STRUCT_MEMBER_POINTER_TYPE", "FP_REFLECTED_STRUCT_MEMBER_POINTER",
    "FP_REFLECTED_STRUCT_MEMBER_NAME", "FP_REFLECTED_STRUCT_MEMBER_TYPE", "FP_NULL", "FP_COMMA", "FP_STATE"] ++
    extractTypeNames ++ stringifyNames

theorem ReflectedHeader.setting (header : ReflectedHeader macros amount) : Setting macros traversalNames :=
  ⟨header.toHeader, by decide⟩

/-- The name of a macro with parameters, alone. -/
theorem inert_macro {b : Macro} (hname : macros b.name = some b) (hparams : b.params.isSome = true)
    (huse : b.name ∈ uses) : Inert macros uses [.word b.name] := ⟨.inr ⟨huse, by simp, b, hname, hparams⟩, trivial⟩

theorem Member.Plain.element {m : Member} (hm : m.Plain macros) : Element macros uses m.text :=
  ⟨hm.isArg.balanced, hm.inert_text.mono (List.nil_subset _)⟩

section Traversal
variable {ctx : Text} {ms : List Member}

theorem value_plain_nil : Value macros [] [] := ⟨rfl, trivial⟩

/-- `FP_NULL` for a step, a final or a separator. -/
theorem computes_null_context (header : ReflectedHeader macros amount) (hctx : Value macros [] ctx) {s : Text}
    (hs : Value macros [] s) : Computes macros traversalNames [.word "FP_NULL"] [ctx] s [] := by
  have hargs : ∀ a ∈ [ctx], IsArg a ∧ Inert macros [] a := by simpa using And.intro hctx.isArg hctx.inert
  exact computes_null header.toHeader (by decide) hargs ⟨hs.isArg.balanced, hs.inert⟩

theorem inert_null (header : ReflectedHeader macros amount) : Inert macros traversalNames [.word "FP_NULL"] :=
  inert_macro (header.defines fpNull (by simp [macrosHpp])) rfl (by decide)

theorem provides_memberLoop (header : ReflectedHeader macros amount) {body separator : String} {result : Member → Text}
    {between : Text} (hbodyWord : Inert macros traversalNames [.word body])
    (hseparatorWord : Inert macros traversalNames [.word separator]) (hctx : Value macros [] ctx)
    (hbody : ∀ m : Member, m.Plain macros → Computes macros traversalNames [.word body] [ctx, []] m.text (result m))
    (hseparator : ∀ s, Value macros [] s → Computes macros traversalNames [.word separator] [ctx] s between) :
    Provides macros traversalNames ⟨body, "FP_NULL", "FP_NULL", separator⟩ (memberLoop macros result between) ctx where
  words := by simpa [LoopNames.words] using ⟨hbodyWord, inert_null header, hseparatorWord⟩
  context := hctx.mono (List.nil_subset _)
  value _ hs := hs ▸ value_nil
  element _ := fun ⟨_, hm, htext⟩ => htext ▸ hm.element
  body _ _ := by
    rintro rfl ⟨m, hm, rfl⟩
    show Computes macros traversalNames [.word body] [ctx, []] m.text (result (Member.ofText m.text))
    rw [Member.ofText_text]
    exact hbody m hm
  step _ := by
    rintro rfl
    exact computes_null_context header hctx value_plain_nil
  next _ _ := rfl
  final _ := by
    rintro rfl
    exact computes_null_context header hctx value_plain_nil
  separator s hs := by
    rcases hs with rfl | rfl
    · exact hseparator _ value_plain_nil
    · exact hseparator _ (value_oldStep header.toHeader)

theorem provides_countLoop (header : ReflectedHeader macros amount) :
    Provides macros traversalNames ⟨"FP_NULL", "FP_REFLECTED_STRUCT_COUNT_MEMBERS_STEP", "FP_STATE", "FP_NULL"⟩
      (countLoop macros) [] where
  words := by
    have hstep : Inert macros traversalNames [.word "FP_REFLECTED_STRUCT_COUNT_MEMBERS_STEP"] :=
      inert_macro (header.reflected fpReflectedStructCountMembersStep (by simp [reflectedHpp])) rfl (by decide)
    have hstate : Inert macros traversalNames [.word "FP_STATE"] :=
      inert_macro (header.defines fpState (by simp [macrosHpp])) rfl (by decide)
    simpa [LoopNames.words] using ⟨inert_null header, hstep, hstate, inert_null header⟩
  context := value_nil
  value _ hs := hs.mono (List.nil_subset _)
  element _ := fun ⟨_, hm, htext⟩ => htext ▸ hm.element
  body s _ hs := by
    rintro ⟨m, hm, rfl⟩
    have hargs : ∀ a ∈ [[], s], IsArg a ∧ Inert macros [] a := by
      simpa using And.intro ⟨rfl, trivial⟩ (And.intro hs.isArg hs.inert)
    exact computes_null header.toHeader (by decide) hargs ⟨hm.isArg.balanced, hm.inert_text⟩
  step _ hs := computes_countMembersStep header (by decide) value_plain_nil hs
  next _ hs := ⟨hs.isArg.append rfl, hs.inert.append trivial (by simp)⟩
  final _ hs :=
    computes_state header.toHeader (by decide) ⟨rfl, trivial⟩ (List.forall_mem_nil _) ⟨hs.isArg.balanced, hs.inert⟩
  separator s hs := by
    rcases hs with hs | rfl
    · exact computes_null_context header value_plain_nil hs
    · exact computes_null_context header value_plain_nil (value_oldStep header.toHeader)

/-- The loops that the traversals are. -/
def hopNames : List String := ["FP_SEQ_FOREACH_BODY", "FP_SEQ_FOREACH_BODY_WITH_SEP", "FP_SEQ_FOREACH_STEP"]

def structNames : List String := hopNames ++ (loopNames ++ traversalNames)

/-- A loop is handed on to `FP_SEQ_FOREACH`. -/
theorem part_hop (header : ReflectedHeader macros amount) {b : Macro} {as es : List Text} {names : LoopNames}
    {f : LoopMacros} {s : Text} (hname : macros b.name = some b) (hparams : b.params = some (as.length + 1))
    (hvariadic : b.variadic = false) (huse : b.name ∈ hopNames)
    (has : ∀ a ∈ as, Value macros traversalNames a) (provides : Provides macros traversalNames names f ctx)
    (hes : ∀ e ∈ es, f.elements e) (hs : f.contexts s)
    (hreplace : b.replace (List.zipWith Argument.mk (as ++ [sequence es]) (as ++ [sequence es])) =
      some (invoke [.word "FP_SEQ_FOREACH"] (names.words ++ [ctx, s]) (sequence es ++ [.rparen]))) :
    Part macros structNames (invoke [.word b.name] as (sequence es ++ [.rparen])) (looped f ctx s es) := by
  have helements : ∀ e ∈ es, Element macros traversalNames e := fun e he => provides.element e (hes e he)
  have hargs : ∀ a ∈ as ++ [sequence es], Inert macros traversalNames a := by
    intro a ha
    rcases List.mem_append.mp ha with ha | ha
    · exact (has a ha).inert
    · rw [List.mem_singleton.mp ha]
      exact sequence_inert helements
  have hnot : ∀ name ∈ hopNames, name ∉ loopNames ++ traversalNames := by decide
  have hloop := computes_seqForeach header.setting provides hes hs
  have hcall := invoke_isArg b.name (fun a ha => (has a ha).isArg) (sequence_isArg helements).balanced
  refine ⟨(computes_call hname hparams (List.mem_append_left _ huse) (List.subset_append_right _ _) (hnot _ huse)
    (fun a ha => (has a ha).isArg) (doneNames_sequence helements) (fun rest => ?_) (fun active hfree => ?_) hreplace
    hloop.stands).stands, doneNames_of_level hcall⟩
  · rw [hvariadic]
    exact reads_named rfl (fun a ha => (has a ha).isArg) (sequence_isArg helements)
  · refine forall₂_inert hargs fun name hname hmem => hfree name ?_ (List.mem_append_left _ hmem)
    exact List.mem_append_right _ (List.mem_append_right _ hname)

theorem elements_text (hms : ∀ m ∈ ms, m.Plain macros) :
    ∀ e ∈ ms.map Member.text, ∃ m : Member, m.Plain macros ∧ m.text = e := by
  intro e he
  obtain ⟨m, hm, rfl⟩ := List.mem_map.mp he
  exact ⟨m, hms m hm, rfl⟩

theorem intercalate_nil_left (texts : List Text) : List.intercalate [] texts = texts.flatten := by
  induction texts with
  | nil => rfl
  | cons text texts ih =>
      cases texts with
      | nil => rw [List.intercalate_singleton, List.flatten_singleton]
      | cons next texts => rw [List.flatten_cons, List.intercalate_cons_cons, ih, List.append_nil]

/-- A body with parameters is given to a loop. -/
theorem value_macro {b : Macro} (hname : macros b.name = some b) (hparams : b.params.isSome = true)
    (huse : b.name ∈ traversalNames) : Value macros traversalNames [.word b.name] :=
  ⟨rfl, inert_macro hname hparams huse⟩

/-- The declarations. -/
theorem part_createMembers (header : ReflectedHeader macros amount) (hms : ∀ m ∈ ms, m.Plain macros) :
    Part macros structNames (invoke [.word "FP_SEQ_FOREACH_BODY"] [[.word "FP_REFLECTED_STRUCT_CREATE_MEMBER"], []]
      (sequence (ms.map Member.text) ++ [.rparen])) (ms.map Member.declaration).flatten := by
  have hcreate : Value macros traversalNames [.word "FP_REFLECTED_STRUCT_CREATE_MEMBER"] :=
    value_macro (header.reflected fpReflectedStructCreateMember (by simp [reflectedHpp])) rfl (by decide)
  have has : ∀ a ∈ [[.word "FP_REFLECTED_STRUCT_CREATE_MEMBER"], []], Value macros traversalNames a := by
    simpa using ⟨hcreate, value_nil⟩
  have provides : Provides macros traversalNames _ (memberLoop macros Member.declaration []) [] :=
    provides_memberLoop header hcreate.inert (inert_null header) value_plain_nil
      (fun m hm => computes_createMember header (by decide) value_plain_nil value_plain_nil hm)
      fun s hs => computes_null_context header value_plain_nil hs
  have hloop := part_hop header (header.defines fpSeqForeachBody (by simp [macrosHpp])) rfl rfl (by decide) has
    provides (elements_text hms) rfl rfl
  rwa [looped_memberLoop, intercalate_nil_left] at hloop

/-- The number of the members. -/
theorem part_countMembers (header : ReflectedHeader macros amount) (hms : ∀ m ∈ ms, m.Plain macros) :
    Part macros structNames (invoke [.word "FP_SEQ_FOREACH_STEP"]
      [[.word "FP_REFLECTED_STRUCT_COUNT_MEMBERS_STEP"], [.word "FP_STATE"], [], [.number "0"]]
      (sequence (ms.map Member.text) ++ [.rparen])) (counted ms.length) := by
  have hstep : Value macros traversalNames [.word "FP_REFLECTED_STRUCT_COUNT_MEMBERS_STEP"] :=
    value_macro (header.reflected fpReflectedStructCountMembersStep (by simp [reflectedHpp])) rfl (by decide)
  have hstate : Value macros traversalNames [.word "FP_STATE"] :=
    value_macro (header.defines fpState (by simp [macrosHpp])) rfl (by decide)
  have hzero : Value macros traversalNames [.number "0"] := ⟨rfl, trivial⟩
  have has : ∀ a ∈ [[.word "FP_REFLECTED_STRUCT_COUNT_MEMBERS_STEP"], [.word "FP_STATE"], [], [.number "0"]],
      Value macros traversalNames a := by
    simpa using ⟨hstep, hstate, value_nil, hzero⟩
  have hstart : Value macros [] [.number "0"] := ⟨rfl, trivial⟩
  have hloop := part_hop header (header.defines fpSeqForeachStep (by simp [macrosHpp])) rfl rfl (by decide) has
    (provides_countLoop header) (elements_text hms) hstart rfl
  have hcounted : looped (countLoop macros) [] (counted 0) (ms.map Member.text) = counted (0 + ms.length) := by
    rw [looped_countLoop, List.length_map]
  rw [Nat.zero_add] at hcounted
  rwa [← hcounted]

/-- A list of what a body makes of the members. -/
theorem part_withCommas (header : ReflectedHeader macros amount) {body : String} {result : Member → Text}
    (hword : Value macros traversalNames [.word body]) (hctx : Value macros [] ctx)
    (hbody : ∀ m : Member, m.Plain macros → Computes macros traversalNames [.word body] [ctx, []] m.text (result m))
    (hms : ∀ m ∈ ms, m.Plain macros) :
    Part macros structNames (withCommas body ctx (sequence (ms.map Member.text))) (joined (ms.map result)) := by
  have hcomma : Value macros traversalNames [.word "FP_COMMA"] :=
    value_macro (header.defines fpComma (by simp [macrosHpp])) rfl (by decide)
  have has : ∀ a ∈ [[.word body], [.word "FP_COMMA"], ctx], Value macros traversalNames a := by
    simpa using ⟨hword, hcomma, hctx.mono (List.nil_subset _)⟩
  have hargs : ∀ a ∈ [ctx], IsArg a ∧ Inert macros [] a := by simpa using And.intro hctx.isArg hctx.inert
  have provides : Provides macros traversalNames _ (memberLoop macros result [.comma]) ctx :=
    provides_memberLoop header hword.inert hcomma.inert hctx hbody
      fun s hs => computes_comma header.toHeader (by decide) hargs ⟨hs.isArg.balanced, hs.inert⟩
  have hloop := part_hop header (header.defines fpSeqForeachBodyWithSep (by simp [macrosHpp])) rfl rfl (by decide) has
    provides (elements_text hms) rfl rfl
  rwa [looped_memberLoop] at hloop

/-- Around what stands for others, the struct stays as it is. -/
theorem part_structText (header : ReflectedHeader macros amount)
    {name declarations declarations' count count' pointerTypes pointerTypes' pointers pointers' names names'
      types types' : Text} (hname : Value macros [] name)
    (hdeclarations : Part macros structNames declarations declarations')
    (hcount : Part macros structNames count count') (hpointerTypes : Part macros structNames pointerTypes pointerTypes')
    (hpointers : Part macros structNames pointers pointers') (hnames : Part macros structNames names names')
    (htypes : Part macros structNames types types') :
    Part macros structNames (structText name declarations count pointerTypes pointers names types)
      (structText name declarations' count' pointerTypes' pointers' names' types') := by
  have fixed : ∀ {a a' b : Text}, Part macros structNames a a' → b.all (Token.among structWords) = true →
      Part macros structNames (a ++ b) (a' ++ b) := fun ha hb =>
    ha.append (part_plain (inert_of_among header.struct hb))
  have hstruct : Part macros structNames [.word "struct"] [.word "struct"] :=
    part_plain (inert_of_among header.struct (by decide))
  unfold structText
  refine fixed (Part.append ?_ htypes) (by decide)
  refine fixed (Part.append ?_ hnames) (by decide)
  refine fixed (Part.append ?_ hpointers) (by decide)
  refine fixed (Part.append ?_ hpointerTypes) (by decide)
  refine fixed (Part.append (fixed (fixed ?_ (by decide)) (by decide)) hcount) (by decide)
  exact (fixed (hstruct.append (part_plain hname.inert)) (by decide)).append hdeclarations

end Traversal

/-! ## The struct -/

section Struct
variable {name : Text} {ms : List Member}

/-- The struct with these members. -/
def reflected (name : Text) (ms : List Member) : Text :=
  structText name (ms.map Member.declaration).flatten (counted ms.length) (joined (ms.map (Member.pointerType name)))
    (joined (ms.map (Member.pointer name))) (joined (ms.map Member.quoted)) (joined (ms.map Member.type))

theorem part_reflected (header : ReflectedHeader macros amount) (hname : Value macros [] name)
    (hms : ∀ m ∈ ms, m.Plain macros) :
    ∃ text, fpReflectedStructSeq.replace
        [⟨name, name⟩, ⟨sequence (ms.map Member.text), sequence (ms.map Member.text)⟩] = some text ∧
      Part macros structNames text (reflected name ms) := by
  refine ⟨_, rfl, part_structText header hname (part_createMembers header hms) (part_countMembers header hms)
    (part_withCommas header ?_ hname (fun m hm => ?_) hms) (part_withCommas header ?_ hname (fun m hm => ?_) hms)
    (part_withCommas header ?_ value_plain_nil (fun m hm => ?_) hms)
    (part_withCommas header ?_ value_plain_nil (fun m hm => ?_) hms)⟩
  · exact value_macro (header.reflected fpReflectedStructMemberPointerType (by simp [reflectedHpp])) rfl (by decide)
  · exact computes_memberPointerType header (by decide) hname value_plain_nil hm
  · exact value_macro (header.reflected fpReflectedStructMemberPointer (by simp [reflectedHpp])) rfl (by decide)
  · exact computes_memberPointer header (by decide) hname value_plain_nil hm
  · exact value_macro (header.reflected fpReflectedStructMemberName (by simp [reflectedHpp])) rfl (by decide)
  · exact computes_memberName header (by decide) value_plain_nil value_plain_nil hm
  · exact value_macro (header.reflected fpReflectedStructMemberType (by simp [reflectedHpp])) rfl (by decide)
  · exact computes_memberType header (by decide) value_plain_nil value_plain_nil hm

theorem computes_reflectedStructSeq (header : ReflectedHeader macros amount)
    (huse : "FP_REFLECTED_STRUCT_SEQ" :: structNames ⊆ uses) (hname : Value macros [] name)
    (hms : ∀ m ∈ ms, m.Plain macros) {members : Text} (hmembers : IsArg members)
    (hscan : ∀ active, Free uses active [] → Expands macros active members (sequence (ms.map Member.text))) :
    Computes macros uses [.word "FP_REFLECTED_STRUCT_SEQ"] [name] members (reflected name ms) := by
  obtain ⟨text, hreplace, hpart⟩ := part_reflected header hname hms
  have has : ∀ a ∈ [name], IsArg a := by simpa using hname.isArg
  exact computes_call (header.reflected fpReflectedStructSeq (by simp [reflectedHpp])) rfl
    (huse (List.mem_cons_self ..)) (List.subset_of_cons_subset huse) (by decide) has (doneNames_of_level hmembers)
    (fun rest => reads_named rfl has hmembers)
    (fun active hfree => .cons (expands_plain hname.inert) (.cons (hscan active hfree) .nil)) hreplace
    hpart.stands

/-- The macros that `FP_REFLECTED_STRUCT` makes use of, for a number of members. -/
def reflectedNames (amount n : Nat) : List String :=
  "FP_REFLECTED_STRUCT" :: (varToSeqNames amount n ++ "FP_REFLECTED_STRUCT_SEQ" :: structNames)

theorem reflectedStruct_notMem (amount n : Nat) :
    "FP_REFLECTED_STRUCT" ∉ varToSeqNames amount n ++ "FP_REFLECTED_STRUCT_SEQ" :: structNames := by
  have hget : "FP_VAR_GET_" ++ amount.repr ≠ "FP_REFLECTED_STRUCT" := append_ne _ (by decide)
  have hseq : "FP_VAR_TO_SEQ_" ++ n.repr ≠ "FP_REFLECTED_STRUCT" := append_ne _ (by decide)
  have hvar : "FP_REFLECTED_STRUCT" ∉ varToSeqNames amount n := by simp [varToSeqNames, hget.symm, hseq.symm]
  have hstruct : "FP_REFLECTED_STRUCT" ∉ "FP_REFLECTED_STRUCT_SEQ" :: structNames := by decide
  exact fun hmem => (List.mem_append.mp hmem).elim hvar hstruct

theorem texts_plain (hms : ∀ m ∈ ms, m.Plain macros) : ∀ a ∈ ms.map Member.text, IsArg a ∧ Inert macros [] a := by
  intro a ha
  obtain ⟨m, hm, rfl⟩ := List.mem_map.mp ha
  exact ⟨(hms m hm).isArg, (hms m hm).inert_text⟩

/-- The sequence of the members, as it is handed to `FP_REFLECTED_STRUCT_SEQ`. -/
theorem stands_varToSeq (header : ReflectedHeader macros amount) (hpos : 0 < ms.length) (hle : ms.length ≤ amount)
    (hms : ∀ m ∈ ms, m.Plain macros) :
    Stands macros (varToSeqNames amount ms.length)
      (invoke [.word "FP_VAR_TO_SEQ"] [] (joined (ms.map Member.text) ++ [.rparen]))
      (sequence (ms.map Member.text)) := by
  obtain ⟨hbalanced, hplain⟩ := joined_plain (texts_plain hms)
  have hlength : (ms.map Member.text).length = ms.length := List.length_map _
  refine (computes_varToSeq header.toHeader header.generated header.stem ?_ ?_ ?_ (texts_plain hms) hbalanced
    fun _ _ => expands_plain hplain).stands
  · rw [hlength]
    exact List.Subset.refl _
  · rwa [hlength]
  · rwa [hlength]

theorem computes_reflectedStruct (header : ReflectedHeader macros amount)
    (huse : reflectedNames amount ms.length ⊆ uses) (hpos : 0 < ms.length) (hle : ms.length ≤ amount)
    (hms : ∀ m ∈ ms, m.Plain macros) (hname : Value macros [] name) {nameArg va : Text} (hnameArg : IsArg nameArg)
    (hva : Balanced va) (hnameScan : ∀ active, Free uses active [] → Expands macros active nameArg name)
    (hscan : ∀ active, Free uses active [] → Expands macros active va (joined (ms.map Member.text))) :
    Computes macros uses [.word "FP_REFLECTED_STRUCT"] [nameArg] va (reflected name ms) := by
  have hmembers := stands_varToSeq header hpos hle hms
  have hcall : IsArg (invoke [.word "FP_VAR_TO_SEQ"] [] (joined (ms.map Member.text) ++ [.rparen])) :=
    invoke_isArg _ (List.forall_mem_nil _) (joined_plain (texts_plain hms)).1
  have has : ∀ a ∈ [nameArg], IsArg a := by simpa using hnameArg
  have hseq : Computes macros (varToSeqNames amount ms.length ++ "FP_REFLECTED_STRUCT_SEQ" :: structNames)
      [.word "FP_REFLECTED_STRUCT_SEQ"] [name] _ (reflected name ms) :=
    computes_reflectedStructSeq header (List.subset_append_right _ _) hname hms hcall fun active hfree =>
      hmembers.expands (hfree.mono (List.subset_append_left _ _))
  refine computes_call (header.reflected fpReflectedStruct (by simp [reflectedHpp])) rfl (huse (List.mem_cons_self ..))
    (List.subset_of_cons_subset huse) (reflectedStruct_notMem amount ms.length) has (doneNames_of_level hva)
    (fun rest => reads_variadic rfl has (reads_balanced hva))
    (fun active hfree => .cons (hnameScan active hfree) (.cons (hscan active hfree) .nil)) rfl ?_
  simpa [invoke, listed] using hseq.stands

/-- **A reflected struct lists its members.** For up to as many members as the header is generated for,
`FP_VAR_SIZE` expands to their number, `FP_VAR_TO_SEQ` to the sequence of them, and `FP_REFLECTED_STRUCT` to the
struct that declares each of them, with their number for `MEMBERS_COUNT` and their pointers, names and types, in
their order. -/
theorem reflectedStruct_lists (header : ReflectedHeader macros amount)
    (huse : reflectedNames amount ms.length ⊆ uses) (hpos : 0 < ms.length) (hle : ms.length ≤ amount)
    (hms : ∀ m ∈ ms, m.Plain macros) (hname : Value macros [] name) {nameArg va : Text} (hnameArg : IsArg nameArg)
    (hva : Balanced va) (hnameScan : ∀ active, Free uses active [] → Expands macros active nameArg name)
    (hscan : ∀ active, Free uses active [] → Expands macros active va (joined (ms.map Member.text))) :
    Computes macros uses [.word "FP_VAR_SIZE"] [] va (numeral ms.length) ∧
      Computes macros uses [.word "FP_VAR_TO_SEQ"] [] va (sequence (ms.map Member.text)) ∧
      ∃ count, sumValue count = some ms.length ∧
        Computes macros uses [.word "FP_REFLECTED_STRUCT"] [nameArg] va
          (structText name (ms.map Member.declaration).flatten count (joined (ms.map (Member.pointerType name)))
            (joined (ms.map (Member.pointer name))) (joined (ms.map Member.quoted)) (joined (ms.map Member.type))) := by
  have hlength : (ms.map Member.text).length = ms.length := List.length_map _
  rw [← hlength] at hpos hle huse
  have hnames : varToSeqNames amount (ms.map Member.text).length ⊆ uses :=
    fun name hmem => huse (List.mem_cons_of_mem _ (List.mem_append_left _ hmem))
  have hsizeNames : ["FP_VAR_SIZE", "FP_VAR_GET_" ++ amount.repr] ⊆ uses :=
    List.Subset.trans (by simp [varToSeqNames]) hnames
  have hsize := computes_varSize header.generated hsizeNames hpos hle (texts_plain hms) hva hscan
  have hseq := computes_varToSeq header.toHeader header.generated header.stem hnames hpos hle (texts_plain hms) hva
    hscan
  rw [hlength] at hpos hle huse hsize
  exact ⟨hsize, hseq, counted ms.length, sumValue_counted _,
    computes_reflectedStruct header huse hpos hle hms hname hnameArg hva hnameScan hscan⟩

/-- The members of `FP_REFLECTED_STRUCT(Foo, (int) a, (char) b)`. -/
def fooMembers : List Member := [⟨[.word "int"], "a"⟩, ⟨[.word "char"], "b"⟩]

theorem fooMembers_plain : ∀ m ∈ fooMembers, m.Plain (headersTable 2) := by
  have ha : Member.Plain (headersTable 2) ⟨[.word "int"], "a"⟩ := ⟨rfl, ⟨.inl rfl, trivial⟩, rfl⟩
  have hb : Member.Plain (headersTable 2) ⟨[.word "char"], "b"⟩ := ⟨rfl, ⟨.inl rfl, trivial⟩, rfl⟩
  simpa [fooMembers] using ⟨ha, hb⟩

theorem reflectedStruct_lists_foo :
    ∃ count, sumValue count = some 2 ∧
      Computes (headersTable 2) (reflectedNames 2 2) [.word "FP_REFLECTED_STRUCT"] [[.word "Foo"]]
        (joined (fooMembers.map Member.text))
        (structText [.word "Foo"] [.word "int", .word "a", semicolon, .word "char", .word "b", semicolon] count
          [.word "int", .word "Foo", scope, .other "*", .comma, .word "char", .word "Foo", scope, .other "*"]
          [.other "&", .word "Foo", scope, .word "a", .comma, .other "&", .word "Foo", scope, .word "b"]
          [.string "a", .comma, .string "b"] [.word "int", .comma, .word "char"]) := by
  have hfoo : Value (headersTable 2) [] [.word "Foo"] := ⟨rfl, .inl rfl, trivial⟩
  obtain ⟨hbalanced, hplain⟩ := joined_plain (texts_plain fooMembers_plain)
  exact (reflectedStruct_lists (reflectedHeader_headersTable 2) (List.Subset.refl _) (by decide) (by decide)
    fooMembers_plain hfoo hfoo.isArg hbalanced (fun _ _ => expands_plain hfoo.inert)
    fun _ _ => expands_plain hplain).2.2

end Struct

end Fipper.Macros
