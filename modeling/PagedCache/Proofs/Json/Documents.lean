import PagedCache.Json.Document
import PagedCache.Proofs.Json.Tokens

/-!
# Reading back what was printed

The compact text of a value is read as one document, and the document determines the
value.  So values with the same text are the same.
-/

namespace PagedCache.Json

namespace Value

mutual

/-- The value as a document. -/
def document : Value → Document
  | .null => .null
  | .bool flag => .bool flag
  | .number value => .number value.literal
  | .string text => .string (some text)
  | .array items => .array (itemDocuments items)
  | .object members => .object (memberDocuments members)

def itemDocuments : List Value → List Document
  | [] => []
  | item :: rest => item.document :: itemDocuments rest

def memberDocuments : List (String × Value) → List (Option String × Document)
  | [] => []
  | (name, value) :: rest => (some name, value.document) :: memberDocuments rest

end

/-! ## Documents determine values -/

mutual

theorem eq_of_document_eq (left right : Value) (hdocument : left.document = right.document) :
    left = right := by
  match left with
  | .null => cases right <;> simp_all [document]
  | .bool _ => cases right <;> simp_all [document]
  | .string _ => cases right <;> simp_all [document]
  | .number numeral =>
      cases right with
      | number other =>
          simp only [document, Document.number.injEq] at hdocument
          rw [Number.literal_injective hdocument]
      | _ => simp [document] at hdocument
  | .array items =>
      cases right with
      | array others =>
          simp only [document, Document.array.injEq] at hdocument
          rw [eq_of_itemDocuments_eq items others hdocument]
      | _ => simp [document] at hdocument
  | .object members =>
      cases right with
      | object others =>
          simp only [document, Document.object.injEq] at hdocument
          rw [eq_of_memberDocuments_eq members others hdocument]
      | _ => simp [document] at hdocument

theorem eq_of_itemDocuments_eq (left right : List Value)
    (hdocuments : itemDocuments left = itemDocuments right) : left = right := by
  match left with
  | [] => cases right <;> simp_all [itemDocuments]
  | item :: items =>
      cases right with
      | nil => simp [itemDocuments] at hdocuments
      | cons other others =>
          simp only [itemDocuments, List.cons.injEq] at hdocuments
          rw [eq_of_document_eq item other hdocuments.1,
            eq_of_itemDocuments_eq items others hdocuments.2]

theorem eq_of_memberDocuments_eq (left right : List (String × Value))
    (hdocuments : memberDocuments left = memberDocuments right) : left = right := by
  match left with
  | [] => cases right <;> simp_all [memberDocuments]
  | (name, value) :: members =>
      cases right with
      | nil => simp [memberDocuments] at hdocuments
      | cons other others =>
          obtain ⟨otherName, otherValue⟩ := other
          simp only [memberDocuments, List.cons.injEq, Prod.mk.injEq, Option.some.injEq]
            at hdocuments
          rw [hdocuments.1.1, eq_of_document_eq value otherValue hdocuments.1.2,
            eq_of_memberDocuments_eq members others hdocuments.2]

end

/-! ## Reading tokens -/

open Document

/-- The machine after some tokens. -/
def advance (state : State) (read : List Token) : Option State :=
  read.foldlM step state

/-- A value where an array may end is an item of the array. -/
theorem advance_firstItem (item : Value) (items : List Value) (frames : List Frame)
    (rest : List Token) :
    advance (.firstItem frames) (itemTokens (item :: items) ++ rest) =
      advance (.value (.array [] :: frames)) (itemTokens (item :: items) ++ rest) := by
  cases items <;> cases item <;> rfl

/-- A name where an object may end is the name of a member. -/
theorem advance_firstMember (member : String × Value) (members : List (String × Value))
    (frames : List Frame) (rest : List Token) :
    advance (.firstMember frames) (memberTokens (member :: members) ++ rest) =
      advance (.member [] frames) (memberTokens (member :: members) ++ rest) := by
  cases members <;> rfl

mutual

/-- **The tokens of a value are read as its document.** -/
theorem advance_tokens (value : Value) (frames : List Frame) (rest : List Token) :
    advance (.value frames) (value.tokens ++ rest) =
      advance (deliver value.document frames) rest := by
  match value with
  | .null | .bool _ | .number _ | .string _ => rfl
  | .array [] => rfl
  | .array (item :: items) =>
      have hitems := advance_itemTokens (item :: items) (by simp) [] frames rest
      rw [← advance_firstItem] at hitems
      rw [tokens, List.cons_append, List.append_assoc]
      exact hitems
  | .object [] => rfl
  | .object (member :: members) =>
      have hmembers := advance_memberTokens (member :: members) (by simp) [] frames rest
      rw [← advance_firstMember] at hmembers
      rw [tokens, List.cons_append, List.append_assoc]
      exact hmembers

theorem advance_itemTokens (items : List Value) (hitems : items ≠ []) (read : List Document)
    (frames : List Frame) (rest : List Token) :
    advance (.value (.array read :: frames)) (itemTokens items ++ .closeArray :: rest) =
      advance (deliver (.array (read.reverse ++ itemDocuments items)) frames) rest := by
  match items with
  | [] => exact absurd rfl hitems
  | [item] =>
      have hitem := advance_tokens item (.array read :: frames) (.closeArray :: rest)
      rw [itemTokens, hitem, itemDocuments, itemDocuments, ← List.reverse_cons]
      rfl
  | item :: next :: more =>
      have hitem := advance_tokens item (.array read :: frames)
        (.comma :: (itemTokens (next :: more) ++ .closeArray :: rest))
      have hmore := advance_itemTokens (next :: more) (by simp) (item.document :: read)
        frames rest
      have htokens : itemTokens (item :: next :: more) ++ .closeArray :: rest =
          item.tokens ++ .comma :: (itemTokens (next :: more) ++ .closeArray :: rest) := by
        simp [itemTokens]
      rw [List.reverse_cons, List.append_assoc] at hmore
      rw [htokens, hitem]
      exact hmore

theorem advance_memberTokens (members : List (String × Value)) (hmembers : members ≠ [])
    (read : List (Option String × Document)) (frames : List Frame) (rest : List Token) :
    advance (.member read frames) (memberTokens members ++ .closeObject :: rest) =
      advance (deliver (.object (read.reverse ++ memberDocuments members)) frames) rest := by
  match members with
  | [] => exact absurd rfl hmembers
  | [(name, value)] =>
      have hvalue := advance_tokens value (.object read (some name) :: frames)
        (.closeObject :: rest)
      rw [memberDocuments, memberDocuments, ← List.reverse_cons]
      exact hvalue
  | (name, value) :: next :: more =>
      have hvalue := advance_tokens value (.object read (some name) :: frames)
        (.comma :: (memberTokens (next :: more) ++ .closeObject :: rest))
      have hmore := advance_memberTokens (next :: more) (by simp)
        ((some name, value.document) :: read) frames rest
      have htokens : memberTokens ((name, value) :: next :: more) ++ .closeObject :: rest =
          .string (some name) :: .colon :: (value.tokens ++
            .comma :: (memberTokens (next :: more) ++ .closeObject :: rest)) := by
        simp [memberTokens]
      rw [List.reverse_cons, List.append_assoc] at hmore
      rw [htokens]
      exact hvalue.trans hmore

end

/-! ## Printing and reading -/

/-- **What was printed is read back.** -/
theorem parse?_compact (value : Value) :
    Document.parse? value.compact = some value.document := by
  have hlex : Token.lex value.render = some value.tokens := by
    have hrender := lex_render value [] (by simp [Token.EndsWord])
    simpa [Token.lex_nil] using hrender
  have hread : advance (.value []) value.tokens = some (.done value.document) := by
    have htokens := advance_tokens value [] []
    rw [List.append_nil] at htokens
    exact htokens
  rw [Document.parse?, compact, String.toList_ofList, hlex, Option.bind_some]
  rw [advance] at hread
  rw [ofTokens?, hread]

/-- **Distinct values have distinct texts.** -/
theorem render_injective : Function.Injective render := by
  intro left right hrender
  apply eq_of_document_eq
  rw [← Option.some_inj, ← parse?_compact, ← parse?_compact, compact, compact, hrender]

end Value

end PagedCache.Json
