import SwapCalldata.Proofs.JsonText

/-!
Values of JSON as they are written, read as values. Compact and indented texts of a value have the
same lexemes, and from these a reader builds the value again, up to what it makes of each number.
-/
namespace SwapCalldata.Json

/-- From the front of a text these lexemes are read, spaces passed over, and this text is left. -/
inductive Scans : List Char → List Lexeme → List Char → Prop where
  | done (text : List Char) : Scans text [] text
  | space {c : Char} {text rest : List Char} {lexemes : List Lexeme}
      (blank : isSpace c = true) (tail : Scans text lexemes rest) : Scans (c :: text) lexemes rest
  | lexeme {c : Char} {text text' rest : List Char} {lexeme : Lexeme} {lexemes : List Lexeme}
      (solid : isSpace c = false) (head : lexeme? c text = some (lexeme, text'))
      (tail : Scans text' lexemes rest) : Scans (c :: text) (lexeme :: lexemes) rest

namespace Scans

variable {a b c text rest : List Char} {lexemes others : List Lexeme}

theorem trans (h : Scans a lexemes b) (h' : Scans b others c) : Scans a (lexemes ++ others) c := by
  induction h with
  | done _ => exact h'
  | space blank _ ih => exact .space blank (ih h')
  | lexeme solid head _ ih => exact .lexeme solid head (ih h')

theorem spaces {gap : List Char} (hgap : ∀ c ∈ gap, isSpace c = true)
    (h : Scans text lexemes rest) : Scans (gap ++ text) lexemes rest := by
  induction gap with
  | nil => exact h
  | cons c gap ih =>
    obtain ⟨hc, hgap⟩ := List.forall_mem_cons.mp hgap
    exact .space hc (ih hgap)

theorem run?_of_lexeme {c : Char} {lexeme : Lexeme} (solid : isSpace c = false)
    (head : lexeme? c text = some (lexeme, rest)) (machine : Machine) :
    machine.run? (c :: text) = (machine.step? lexeme).bind fun machine => machine.run? rest := by
  rw [Machine.run?, if_neg (by simp [solid])]
  split
  next hnone =>
    rw [head] at hnone
    cases hnone
  next hsome =>
    rw [head] at hsome
    obtain ⟨rfl, rfl⟩ := Prod.mk.inj (Option.some.inj hsome)
    cases machine.step? lexeme <;> rfl

/-- The machine takes the lexemes in order and then goes on with what is left. -/
theorem run?_eq (h : Scans text lexemes rest) (machine : Machine) : machine.run? text =
    (lexemes.foldlM Machine.step? machine).bind fun machine => machine.run? rest := by
  induction h generalizing machine with
  | done _ => rfl
  | space blank _ ih => rw [Machine.run?, if_pos blank, ih]
  | lexeme solid head _ ih =>
    rw [run?_of_lexeme solid head, List.foldlM_cons, Option.bind_eq_bind, Option.bind_assoc]
    exact Option.bind_congr fun machine _ => ih machine

end Scans

/-- The text is these lexemes, whatever comes after it but the continuation of a number. -/
def Writes (text : List Char) (lexemes : List Lexeme) : Prop :=
  ∀ rest, Delimited rest → Scans (text ++ rest) lexemes rest

/-- The character is a lexeme by itself, and no number goes on with it. -/
structure IsMark (c : Char) (lexeme : Lexeme) : Prop where
  solid : isSpace c = false
  delimits : c.isDigit = false ∧ c ≠ '.' ∧ c ≠ 'e' ∧ c ≠ 'E'
  alone : ∀ rest, lexeme? c rest = some (lexeme, rest)

theorem isMark_comma : IsMark ',' .comma := ⟨by decide, by decide, fun _ => rfl⟩

theorem isMark_colon : IsMark ':' .colon := ⟨by decide, by decide, fun _ => rfl⟩

theorem isMark_openArray : IsMark '[' .openArray := ⟨by decide, by decide, fun _ => rfl⟩

theorem isMark_closeArray : IsMark ']' .closeArray := ⟨by decide, by decide, fun _ => rfl⟩

theorem isMark_openObject : IsMark '\x7b' .openObject := ⟨by decide, by decide, fun _ => rfl⟩

theorem isMark_closeObject : IsMark '\x7d' .closeObject := ⟨by decide, by decide, fun _ => rfl⟩

section

variable {c : Char} {text gap rest : List Char} {lexeme : Lexeme} {lexemes : List Lexeme}

theorem IsMark.scans (h : IsMark c lexeme) (tail : Scans text lexemes rest) :
    Scans (c :: text) (lexeme :: lexemes) rest :=
  .lexeme h.solid (h.alone text) tail

theorem IsMark.delimited (h : IsMark c lexeme) (rest : List Char) : Delimited (c :: rest) := by
  intro d hd
  obtain rfl := Option.some.inj hd
  exact h.delimits

theorem delimited_spaces (hgap : ∀ c ∈ gap, isSpace c = true) (h : Delimited rest) :
    Delimited (gap ++ rest) := by
  cases gap with
  | nil => exact h
  | cons c gap =>
    have hspace := hgap c List.mem_cons_self
    intro d hd
    obtain rfl := Option.some.inj hd
    simp only [isSpace, Bool.or_eq_true, beq_iff_eq] at hspace
    obtain ((rfl | rfl) | rfl) | rfl := hspace <;> decide

theorem writes_null : Writes (scalarText .null) [.scalar .null] :=
  fun rest _ => .lexeme (by decide) rfl (.done rest)

theorem writes_quote (s : String) : Writes (quote s.toList) [.string (some s)] := by
  intro rest _
  have hread := lexeme?_quote s rest
  have htext : quote s.toList ++ rest = '"' :: (s.toList.flatMap escape ++ '"' :: rest) := by
    simp [quote]
  rw [htext]
  exact .lexeme (by decide) hread (.done rest)

theorem writes_numeralText {numeral : Numeral} (h : numeral.Writable) :
    Writes (numeralText numeral) [.scalar (.number numeral.reread)] := by
  intro rest hrest
  obtain ⟨c, text, htext, hsolid, hread⟩ := exists_lexeme_numeralText h hrest
  rw [htext]
  exact .lexeme hsolid hread (.done rest)

theorem Writes.spaces (h : Writes text lexemes) (hgap : ∀ c ∈ gap, isSpace c = true) :
    Writes (gap ++ text) lexemes := by
  intro rest hrest
  rw [List.append_assoc]
  exact (h rest hrest).spaces hgap

theorem Writes.member (h : Writes text lexemes) (key : String) :
    Writes (quote key.toList ++ ':' :: text) (.string (some key) :: .colon :: lexemes) := by
  intro rest hrest
  rw [List.append_assoc]
  exact (writes_quote key _ (isMark_colon.delimited _)).trans (isMark_colon.scans (h rest hrest))

/-- Brackets around a text, with spaces before the closing one. -/
theorem Writes.enclosed {opening closing : Char} {first last : Lexeme} (h : Writes text lexemes)
    (hopening : IsMark opening first) (hclosing : IsMark closing last)
    (hgap : ∀ c ∈ gap, isSpace c = true) :
    Writes (opening :: text ++ gap ++ [closing]) (first :: lexemes ++ [last]) := by
  intro rest _
  have htext : opening :: text ++ gap ++ [closing] ++ rest =
      opening :: (text ++ (gap ++ closing :: rest)) := by simp
  have hend : Scans (gap ++ closing :: rest) [last] rest :=
    .spaces hgap (hclosing.scans (.done rest))
  rw [htext]
  apply hopening.scans
  exact (h _ (delimited_spaces hgap (hclosing.delimited rest))).trans hend

theorem writes_intercalate {texts : List (List Char)} {parts : List (List Lexeme)}
    (h : List.Forall₂ Writes texts parts) :
    Writes ([','].intercalate texts) ([.comma].intercalate parts) := by
  induction h with
  | nil => exact fun rest _ => .done rest
  | cons hfirst hrest ih =>
    cases hrest with
    | nil => simpa using hfirst
    | cons hnext hrest =>
      intro rest hend
      rw [List.intercalate_cons_cons, List.intercalate_cons_cons]
      simp only [List.append_assoc, List.singleton_append]
      exact (hfirst _ (isMark_comma.delimited _)).trans (isMark_comma.scans (ih rest hend))

end

theorem compactItems_eq (items : List Json) :
    compactItems items = [','].intercalate (items.map compact) := by
  induction items with
  | nil => rfl
  | cons item rest ih =>
    cases rest with
    | nil => simp [compactItems]
    | cons next rest => simp [compactItems, ih, List.intercalate_cons_cons]

theorem prettyItems_eq (depth : Nat) (items : List Json) : prettyItems depth items =
    [','].intercalate (items.map fun item => newline depth ++ pretty depth item) := by
  induction items with
  | nil => rfl
  | cons item rest ih =>
    cases rest with
    | nil => simp [prettyItems]
    | cons next rest => simp [prettyItems, ih, List.intercalate_cons_cons]

theorem compactMembers_eq (members : List (Option String × Json)) : compactMembers members =
    [','].intercalate (members.map fun member =>
      quote (member.1.getD "").toList ++ ':' :: compact member.2) := by
  induction members with
  | nil => rfl
  | cons member rest ih =>
    cases rest with
    | nil => simp [compactMembers]
    | cons next rest => simp [compactMembers, ih, List.intercalate_cons_cons]

theorem prettyMembers_eq (depth : Nat) (members : List (Option String × Json)) :
    prettyMembers depth members = [','].intercalate (members.map fun member =>
      newline depth ++ (quote (member.1.getD "").toList ++ ':' :: ' ' :: pretty depth member.2)) := by
  induction members with
  | nil => rfl
  | cons member rest ih =>
    cases rest with
    | nil => simp [prettyMembers]
    | cons next rest => simp [prettyMembers, ih, List.intercalate_cons_cons]

theorem intercalate_cons {α : Type} (separator : α) (first : List α) (rest : List (List α)) :
    [separator].intercalate (first :: rest) = first ++ rest.flatMap (separator :: ·) := by
  induction rest generalizing first with
  | nil => simp
  | cons next rest ih => simp [List.intercalate_cons_cons, ih]

/-- The lexemes lead from one state of the machine to the other. -/
def Machine.Leads (a : Machine) (lexemes : List Lexeme) (b : Machine) : Prop :=
  lexemes.foldlM Machine.step? a = some b

namespace Machine.Leads

variable {a b c : Machine} {lexeme : Lexeme} {lexemes others : List Lexeme}

theorem nil (a : Machine) : a.Leads [] a := rfl

theorem cons (hstep : a.step? lexeme = some b) (h : b.Leads lexemes c) :
    a.Leads (lexeme :: lexemes) c := by
  unfold Leads
  rw [List.foldlM_cons, hstep]
  exact h

theorem append (h : a.Leads lexemes b) (h' : b.Leads others c) : a.Leads (lexemes ++ others) c := by
  unfold Leads
  rw [List.foldlM_append, h]
  exact h'

end Machine.Leads

/-- The machine takes these lexemes for this value wherever it expects a value. -/
def Builds (lexemes : List Lexeme) (value : Json) : Prop :=
  ∀ stack, (⟨.value, stack⟩ : Machine).Leads lexemes ⟨.after value, stack⟩

/-- The lexemes are a key with a value. -/
def BuildsMember (lexemes : List Lexeme) (member : Option String × Json) : Prop :=
  ∃ rest, lexemes = .string member.1 :: .colon :: rest ∧ Builds rest member.2

/-- The first item of an array is taken as any other value. -/
theorem Builds.firstItem {lexemes : List Lexeme} {value : Json} (h : Builds lexemes value)
    (stack : List Frame) :
    (⟨.firstItem, stack⟩ : Machine).Leads lexemes ⟨.after value, .array [] :: stack⟩ := by
  have hvalue := h (.array [] :: stack)
  cases lexemes with
  | nil => cases hvalue
  | cons lexeme rest => cases lexeme <;> first | exact hvalue | cases hvalue

theorem leads_items {parts : List (List Lexeme)} {values : List Json}
    (h : List.Forall₂ Builds parts values) (held : List Json) (value : Json)
    (stack : List Frame) : (⟨.after value, .array held :: stack⟩ : Machine).Leads
      (parts.flatMap (Lexeme.comma :: ·) ++ [Lexeme.closeArray])
      ⟨.after (.array (held.reverse ++ value :: values)), stack⟩ := by
  induction h generalizing held value with
  | nil =>
    apply Machine.Leads.cons _ (.nil _)
    simp [Machine.step?]
  | cons hfirst _ ih =>
    rw [List.flatMap_cons, List.append_assoc, List.cons_append]
    apply Machine.Leads.cons rfl
    apply (hfirst _).append
    simpa using ih (value :: held) _

theorem leads_members {parts : List (List Lexeme)} {members : List (Option String × Json)}
    (h : List.Forall₂ BuildsMember parts members) (held : List (Option String × Json))
    (key : Option String) (value : Json) (stack : List Frame) :
    (⟨.after value, .object held key :: stack⟩ : Machine).Leads
      (parts.flatMap (Lexeme.comma :: ·) ++ [Lexeme.closeObject])
      ⟨.after (.object (held.reverse ++ (key, value) :: members)), stack⟩ := by
  induction h generalizing held key value with
  | nil =>
    apply Machine.Leads.cons _ (.nil _)
    simp [Machine.step?]
  | cons hfirst _ ih =>
    obtain ⟨rest, rfl, hvalue⟩ := hfirst
    rw [List.flatMap_cons, List.append_assoc, List.cons_append]
    apply Machine.Leads.cons rfl
    apply Machine.Leads.cons rfl
    apply Machine.Leads.cons rfl
    apply (hvalue _).append
    simpa using ih ((key, value) :: held) _ _

theorem builds_array {parts : List (List Lexeme)} {values : List Json}
    (h : List.Forall₂ Builds parts values) :
    Builds (.openArray :: [.comma].intercalate parts ++ [.closeArray]) (.array values) := by
  intro stack
  rw [List.cons_append]
  apply Machine.Leads.cons rfl
  cases h with
  | nil => exact Machine.Leads.cons rfl (.nil _)
  | cons hfirst hrest =>
    rw [intercalate_cons, List.append_assoc]
    exact (hfirst.firstItem stack).append (leads_items hrest [] _ stack)

theorem builds_object {parts : List (List Lexeme)} {members : List (Option String × Json)}
    (h : List.Forall₂ BuildsMember parts members) :
    Builds (.openObject :: [.comma].intercalate parts ++ [.closeObject]) (.object members) := by
  intro stack
  rw [List.cons_append]
  apply Machine.Leads.cons rfl
  cases h with
  | nil => exact Machine.Leads.cons rfl (.nil _)
  | cons hfirst hrest =>
    obtain ⟨rest, rfl, hvalue⟩ := hfirst
    rw [intercalate_cons, List.append_assoc]
    apply Machine.Leads.cons rfl
    apply Machine.Leads.cons rfl
    exact (hvalue _).append (leads_members hrest [] _ _ stack)

theorem isSpace_newline (depth : Nat) : ∀ c ∈ newline depth, isSpace c = true := by
  intro c hc
  rcases List.mem_cons.mp hc with rfl | hspaces
  · decide
  · rw [List.eq_of_mem_replicate hspaces]
    decide

/-- Either text of the first value is read as the second. -/
def ReadsAs (written found : Json) : Prop :=
  ∃ lexemes, Writes written.compact lexemes ∧ (∀ depth, Writes (written.pretty depth) lexemes) ∧
    Builds lexemes found

/-- The members of the first object are read as those of the second, each under its own key. -/
def MembersReadAs (members found : List (String × Json)) : Prop :=
  List.Forall₂ (fun a b => a.1 = b.1 ∧ ReadsAs a.2 b.2) members found

theorem MembersReadAs.nil : MembersReadAs [] [] := List.Forall₂.nil

theorem MembersReadAs.cons {members found : List (String × Json)} {written value : Json}
    (key : String) (hvalue : ReadsAs written value) (h : MembersReadAs members found) :
    MembersReadAs ((key, written) :: members) ((key, value) :: found) :=
  List.Forall₂.cons ⟨rfl, hvalue⟩ h

namespace ReadsAs

theorem parse?_eq {text : List Char} {lexemes : List Lexeme} {value : Json}
    (hwrites : Writes text lexemes) (hbuilds : Builds lexemes value) :
    parse? (String.ofList text) = some value := by
  have hend : Delimited [] := fun c hc => nomatch hc
  have hscans := hwrites [] hend
  rw [List.append_nil] at hscans
  have hleads : Machine.start.Leads lexemes ⟨.after value, []⟩ := hbuilds []
  rw [parse?, String.toList_ofList, hscans.run?_eq, hleads, Option.bind_some, Machine.run?]
  rfl

variable {written found : Json}

theorem parse?_compactText (h : ReadsAs written found) :
    parse? written.compactText = some found := by
  obtain ⟨lexemes, hcompact, _, hbuilds⟩ := h
  exact parse?_eq hcompact hbuilds

theorem parse?_prettyText (h : ReadsAs written found) :
    parse? written.prettyText = some found := by
  obtain ⟨lexemes, _, hpretty, hbuilds⟩ := h
  exact parse?_eq (hpretty 0) hbuilds

theorem of_lexeme {lexeme : Lexeme} (hcompact : Writes written.compact [lexeme])
    (hpretty : ∀ depth, Writes (written.pretty depth) [lexeme])
    (hstep : ∀ stack, Machine.step? ⟨.value, stack⟩ lexeme = some ⟨.after found, stack⟩) :
    ReadsAs written found :=
  ⟨[lexeme], hcompact, hpretty, fun stack => Machine.Leads.cons (hstep stack) (.nil _)⟩

theorem null : ReadsAs .null .null := of_lexeme writes_null (fun _ => writes_null) fun _ => rfl

theorem string (s : String) : ReadsAs (.ofString s) (.ofString s) :=
  of_lexeme (writes_quote s) (fun _ => writes_quote s) fun _ => rfl

theorem number {numeral : Numeral} (h : numeral.Writable) :
    ReadsAs (.number numeral) (.number numeral.reread) :=
  of_lexeme (writes_numeralText h) (fun _ => writes_numeralText h) fun _ => rfl

theorem nat {n : Nat} (h : n < UInt64.size) : ReadsAs (.ofNat n) (.ofNat n) := by
  have hsame : ReadsAs (.number (.integer false n)) _ := number trivial
  rwa [Numeral.reread_integer h] at hsame

theorem exists_parts {items values : List Json} (h : List.Forall₂ ReadsAs items values) :
    ∃ parts, List.Forall₂ Writes (items.map compact) parts ∧
      (∀ depth, List.Forall₂ Writes
        (items.map fun item => newline depth ++ pretty depth item) parts) ∧
      List.Forall₂ Builds parts values := by
  induction h with
  | nil => exact ⟨[], .nil, fun _ => .nil, .nil⟩
  | cons hfirst _ ih =>
    obtain ⟨lexemes, hcompact, hpretty, hbuilds⟩ := hfirst
    obtain ⟨parts, hcompacts, hpretties, hparts⟩ := ih
    refine ⟨lexemes :: parts, .cons hcompact hcompacts, fun depth => ?_, .cons hbuilds hparts⟩
    exact .cons ((hpretty depth).spaces (isSpace_newline depth)) (hpretties depth)

theorem array {items values : List Json} (h : List.Forall₂ ReadsAs items values) :
    ReadsAs (.array items) (.array values) := by
  obtain ⟨parts, hcompact, hpretty, hbuilds⟩ := exists_parts h
  refine ⟨_, ?_, fun depth => ?_, builds_array hbuilds⟩
  · have htext := (writes_intercalate hcompact).enclosed isMark_openArray isMark_closeArray
      (List.forall_mem_nil _)
    rwa [← compactItems_eq, List.append_nil] at htext
  · cases h with
    | nil =>
      cases hcompact
      exact (writes_intercalate .nil).enclosed isMark_openArray isMark_closeArray (List.forall_mem_nil _)
    | cons _ _ =>
      have htext := (writes_intercalate (hpretty (depth + 1))).enclosed isMark_openArray
        isMark_closeArray (isSpace_newline depth)
      rwa [← prettyItems_eq] at htext

theorem exists_memberParts {members values : List (String × Json)}
    (h : MembersReadAs members values) :
    ∃ parts, List.Forall₂ Writes
        (members.map fun member => quote member.1.toList ++ ':' :: compact member.2) parts ∧
      (∀ depth, List.Forall₂ Writes (members.map fun member => newline depth ++
        (quote member.1.toList ++ ':' :: ' ' :: pretty depth member.2)) parts) ∧
      List.Forall₂ BuildsMember parts (values.map fun value => (some value.1, value.2)) := by
  induction h with
  | nil => exact ⟨[], .nil, fun _ => .nil, .nil⟩
  | cons hfirst _ ih =>
    obtain ⟨hkey, lexemes, hcompact, hpretty, hbuilds⟩ := hfirst
    obtain ⟨parts, hcompacts, hpretties, hparts⟩ := ih
    refine ⟨(.string (some _) :: .colon :: lexemes) :: parts, .cons (hcompact.member _) hcompacts,
      fun depth => .cons ?_ (hpretties depth), .cons ⟨lexemes, by rw [hkey], hbuilds⟩ hparts⟩
    have hspace : ∀ c ∈ [' '], isSpace c = true := List.forall_mem_singleton.mpr rfl
    have hvalue : Writes (' ' :: pretty depth _) lexemes := (hpretty depth).spaces hspace
    exact (hvalue.member _).spaces (isSpace_newline depth)

theorem members {members values : List (String × Json)} (h : MembersReadAs members values) :
    ReadsAs (.ofMembers members) (.ofMembers values) := by
  obtain ⟨parts, hcompact, hpretty, hbuilds⟩ := exists_memberParts h
  refine ⟨_, ?_, fun depth => ?_, builds_object hbuilds⟩
  · have htext := (writes_intercalate hcompact).enclosed isMark_openObject isMark_closeObject
      (List.forall_mem_nil _)
    simpa [ofMembers, compact, compactMembers_eq, Function.comp_def] using htext
  · cases h with
    | nil =>
      cases hcompact
      exact (writes_intercalate .nil).enclosed isMark_openObject isMark_closeObject (List.forall_mem_nil _)
    | cons _ _ =>
      have htext := (writes_intercalate (hpretty (depth + 1))).enclosed isMark_openObject
        isMark_closeObject (isSpace_newline depth)
      simpa [ofMembers, pretty, prettyMembers_eq, Function.comp_def] using htext

end ReadsAs

end SwapCalldata.Json
