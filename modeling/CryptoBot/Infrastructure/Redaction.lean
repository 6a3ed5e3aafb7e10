import CryptoBot.Infrastructure.Logging

/-!
# What redaction covers

A secret is replaced wherever a string of the payload contains it. Keys are written as they are, and so
is what `json.dumps` makes of numbers and other objects, since that happens after the redaction. So a
line is free of secrets exactly when these texts are, and when no escape spells a secret. A secret that
contains a quote, a backslash or an asterisk may also come about across the syntax of JSON or across
the replacement text.
-/

namespace CryptoBot

open Lib

namespace Logging

/-! ## Strings -/

/-- A secret that cannot reach across strings, escapes or replacements. -/
def Plain (s : String) : Prop := '"' ∉ s.toList ∧ '\\' ∉ s.toList ∧ '*' ∉ s.toList

instance {s : String} : Decidable (Plain s) := inferInstanceAs (Decidable (_ ∧ _ ∧ _))

theorem ne_nil_of_long {s : String} (hs : 6 ≤ s.length) : s.toList ≠ [] := by
  intro h
  rw [← String.length_toList, h, List.length_nil] at hs
  omega

theorem masks_signatureAt : Masks '*' signatureAt := by
  intro text n by_ hmatch
  unfold signatureAt at hmatch
  dsimp only at hmatch
  split at hmatch
  · next h =>
    cases hmatch
    obtain ⟨rest, rfl⟩ := List.isPrefixOf_iff_prefix.1 h.1
    refine ⟨by omega, "signature=".toList, rest.takeWhile inValue, 2, ?_, rfl⟩
    have hlen : "signature=".toList.length = 10 := by decide
    have hdrop : ("signature=".toList ++ rest).drop 10 = rest := by
      rw [← hlen, List.drop_left]
    rw [hdrop, ← hlen, List.take_length_add_append]
    congr 1
    exact (List.prefix_iff_eq_take.1 (List.takeWhile_prefix _)).symm
  · cases hmatch

/-- Every secret without an asterisk is gone from a scrubbed string. -/
theorem not_infix_scrub {secrets : Secrets} {s : String} (hs : s ∈ secrets.known)
    (hstar : '*' ∉ s.toList) (text : List Char) : ¬ s.toList <:+: scrub secrets text := by
  have hkept {known : List String} (hlong : ∀ k ∈ known, 6 ≤ k.length) {text : List Char}
      (hno : ¬ s.toList <:+: text) :
      ¬ s.toList <:+: known.foldl (fun text k => replaceAll k.toList stars text) text := by
    induction known generalizing text with
    | nil => exact hno
    | cons k known ih =>
      refine ih (fun k' hk' => hlong k' (.tail _ hk')) fun hin => hno ?_
      exact (masked_replaceAll (ne_nil_of_long (hlong k (.head _))) 2 text).isInfix hstar hin
  have hgone {known : List String} (hlong : ∀ k ∈ known, 6 ≤ k.length) (hs : s ∈ known)
      (text : List Char) :
      ¬ s.toList <:+: known.foldl (fun text k => replaceAll k.toList stars text) text := by
    induction known generalizing text with
    | nil => cases hs
    | cons k known ih =>
      have hlong' : ∀ k' ∈ known, 6 ≤ k'.length := fun k' hk' => hlong k' (.tail _ hk')
      rcases List.mem_cons.1 hs with rfl | hs
      · exact hkept hlong' (not_infix_replaceAll (ne_nil_of_long (hlong s (.head _))) hstar 2 text)
      · exact ih hlong' hs _
  intro hin
  exact hgone secrets.long hs text ((masked_substitute masks_signatureAt 0).isInfix hstar hin)

/-! ## Escapes -/

/-- A character that JSON writes as it is. -/
def Verbatim (c : Char) : Prop := c ≠ '"' ∧ c ≠ '\\' ∧ 32 ≤ c.toNat ∧ c.toNat ≤ 126

instance {c : Char} : Decidable (Verbatim c) := inferInstanceAs (Decidable (_ ∧ _ ∧ _ ∧ _))

/-- A secret that an escape spells together with the text after it. -/
def Spells (s text : List Char) : Prop :=
  ∃ c e t, ¬ Verbatim c ∧ e ≠ [] ∧ e <:+ escapeChar c ∧ (∀ x ∈ t, Verbatim x) ∧ s = e ++ t ∧
    c :: t <:+: text

theorem escapeChar_verbatim {c : Char} (hc : Verbatim c) : escapeChar c = [c] := by
  unfold escapeChar
  dsimp only
  rw [if_neg hc.1, if_neg hc.2.1, if_pos hc.2.2]

/-- An escape begins with a backslash, and no more than five characters stand between backslashes. -/
theorem escapeChar_special {c : Char} (hc : ¬ Verbatim c) : ∃ a b, a.length ≤ 5 ∧ b.length ≤ 5 ∧
    (escapeChar c = '\\' :: a ∨ escapeChar c = '\\' :: a ++ '\\' :: b) := by
  unfold escapeChar
  dsimp only
  split
  · exact ⟨['"'], [], by decide, by decide, .inl rfl⟩
  · next hquote =>
    split
    · exact ⟨['\\'], [], by decide, by decide, .inl rfl⟩
    · next hslash =>
      rw [if_neg fun h => hc ⟨hquote, hslash, h⟩]
      split
      · exact ⟨['n'], [], by decide, by decide, .inl rfl⟩
      · split
        · exact ⟨['r'], [], by decide, by decide, .inl rfl⟩
        · split
          · exact ⟨['t'], [], by decide, by decide, .inl rfl⟩
          · split
            · exact ⟨['f'], [], by decide, by decide, .inl rfl⟩
            · split
              · exact ⟨['b'], [], by decide, by decide, .inl rfl⟩
              · split
                · exact ⟨'u' :: hex4 _, [], le_refl 5, by decide, .inl rfl⟩
                · exact ⟨'u' :: hex4 _, 'u' :: hex4 _, le_refl 5, le_refl 5, .inr rfl⟩

theorem escape_cons (c : Char) (text : List Char) : escape (c :: text) = escapeChar c ++ escape text :=
  List.flatMap_cons

theorem escape_append (text text' : List Char) :
    escape (text ++ text') = escape text ++ escape text' :=
  List.flatMap_append

theorem escape_verbatim {text : List Char} (h : ∀ c ∈ text, Verbatim c) : escape text = text := by
  induction text with
  | nil => rfl
  | cons c text ih =>
    rw [escape_cons, escapeChar_verbatim (h c (.head _)), ih fun x hx => h x (.tail _ hx)]
    rfl

/-- What is read without a backslash at the start of an escaped text stands there unescaped. -/
theorem prefix_escape {t text : List Char} (ht : '\\' ∉ t) (hpre : t <+: escape text) :
    t <+: text ∧ ∀ x ∈ t, Verbatim x := by
  induction text generalizing t with
  | nil =>
    cases List.prefix_nil.1 hpre
    exact ⟨List.nil_prefix, by simp⟩
  | cons c text ih =>
    cases t with
    | nil => exact ⟨List.nil_prefix, by simp⟩
    | cons x t =>
      rw [escape_cons] at hpre
      by_cases hc : Verbatim c
      · rw [escapeChar_verbatim hc] at hpre
        obtain ⟨rfl, hrest⟩ := List.cons_prefix_cons.1 hpre
        obtain ⟨hpre', hall⟩ := ih (fun h => ht (.tail _ h)) hrest
        exact ⟨List.cons_prefix_cons.2 ⟨rfl, hpre'⟩, List.forall_mem_cons.2 ⟨hc, hall⟩⟩
      · obtain ⟨a, b, -, -, ha | ha⟩ := escapeChar_special hc
        · rw [ha] at hpre
          exact absurd (.head _) ((List.cons_prefix_cons.1 hpre).1 ▸ ht)
        · rw [ha] at hpre
          exact absurd (.head _) ((List.cons_prefix_cons.1 hpre).1 ▸ ht)

/-- An escape is too short to contain a secret. -/
theorem not_infix_escapeChar {s : List Char} (hlong : 6 ≤ s.length) (hs : '\\' ∉ s) (c : Char) :
    ¬ s <:+: escapeChar c := by
  intro hin
  by_cases hc : Verbatim c
  · rw [escapeChar_verbatim hc] at hin
    have := hin.length_le
    rw [List.length_singleton] at this
    omega
  · obtain ⟨a, b, ha, hb, heq | heq⟩ := escapeChar_special hc
    · rw [heq, ← List.nil_append ('\\' :: a), infix_append_cons_iff hs] at hin
      rcases hin with hin | hin
      · have := hin.length_le
        rw [List.length_nil] at this
        omega
      · have := hin.length_le
        omega
    · rw [heq, infix_append_cons_iff hs, ← List.nil_append ('\\' :: a),
        infix_append_cons_iff hs] at hin
      rcases hin with (hin | hin) | hin
      · have := hin.length_le
        rw [List.length_nil] at this
        omega
      · have := hin.length_le
        omega
      · have := hin.length_le
        omega

theorem Spells.cons {s text : List Char} {c : Char} (h : Spells s text) : Spells s (c :: text) := by
  obtain ⟨d, e, t, hd, he, hsuf, ht, heq, hin⟩ := h
  exact ⟨d, e, t, hd, he, hsuf, ht, heq, List.infix_cons hin⟩

/-- A secret in an escaped text stands in the text, or an escape spells it. -/
theorem infix_escape {s text : List Char} (hlong : 6 ≤ s.length) (hs : '\\' ∉ s)
    (hin : s <:+: escape text) : s <:+: text ∨ Spells s text := by
  induction text with
  | nil => exact .inl hin
  | cons c text ih =>
    rw [escape_cons] at hin
    rcases List.infix_append_iff.1 hin with hin | hin | ⟨e, t, rfl, he, ht⟩
    · exact absurd hin (not_infix_escapeChar hlong hs c)
    · exact (ih hin).imp List.infix_cons Spells.cons
    · obtain ⟨hpre, hall⟩ := prefix_escape (fun h => hs (List.mem_append_right _ h)) ht
      by_cases hnil : e = []
      · subst hnil
        exact .inl (List.infix_cons hpre.isInfix)
      · by_cases hc : Verbatim c
        · rw [escapeChar_verbatim hc] at he
          have hone : e = [c] := by
            rcases List.suffix_cons_iff.1 he with h | h
            · exact h
            · exact absurd (List.suffix_nil.1 h) hnil
          rw [hone]
          exact .inl (List.cons_prefix_cons.2 ⟨rfl, hpre⟩).isInfix
        · exact .inr ⟨c, e, t, hc, hnil, he, hall, rfl,
            (List.cons_prefix_cons.2 ⟨rfl, hpre⟩).isInfix⟩

theorem Spells.infix_escape {s text : List Char} (h : Spells s text) : s <:+: escape text := by
  obtain ⟨c, e, t, -, -, ⟨front, hfront⟩, ht, rfl, ⟨pre, post, rfl⟩⟩ := h
  refine ⟨escape pre ++ front, escape post, ?_⟩
  rw [escape_append, escape_append, escape_cons, escape_verbatim ht, ← hfront]
  simp only [List.append_assoc]

/-! ## Lines -/

/-- The line without what stands between quotes. -/
def bare : List Piece → List Char
  | [] => []
  | .raw text :: ps => text ++ bare ps
  | .quoted _ :: ps => '"' :: '"' :: bare ps

/-- What stands between quotes. -/
def bodies : List Piece → List (List Char)
  | [] => []
  | .raw _ :: ps => bodies ps
  | .quoted body :: ps => body :: bodies ps

theorem bare_append (ps qs : List Piece) : bare (ps ++ qs) = bare ps ++ bare qs := by
  induction ps with
  | nil => rfl
  | cons p ps ih =>
    cases p with
    | raw text => rw [List.cons_append, bare, bare, ih, List.append_assoc]
    | quoted body => rw [List.cons_append, bare, bare, ih, List.cons_append, List.cons_append]

theorem bodies_append (ps qs : List Piece) : bodies (ps ++ qs) = bodies ps ++ bodies qs := by
  induction ps with
  | nil => rfl
  | cons p ps ih =>
    cases p with
    | raw text => rw [List.cons_append, bodies, bodies, ih]
    | quoted body => rw [List.cons_append, bodies, bodies, ih, List.cons_append]

/-- What stands between quotes stands in the line. -/
theorem infix_render_of_body {ps : List Piece} {body : List Char} (h : body ∈ bodies ps) :
    body <:+: render ps := by
  induction ps with
  | nil => cases h
  | cons p ps ih =>
    cases p with
    | raw text => exact List.infix_append_of_infix_right (ih h)
    | quoted b =>
      rw [render]
      rcases List.mem_cons.1 h with rfl | h
      · exact List.infix_cons (List.infix_append_of_infix_left (List.infix_refl _))
      · exact List.infix_cons (List.infix_append_of_infix_right (List.infix_cons (ih h)))

/-- A text without quotes occurs between the quotes of a string, or outside of the strings. -/
theorem infix_render_iff {s : List Char} (hs : s ≠ []) (hquote : '"' ∉ s) (ps : List Piece)
    (before : List Char) : s <:+: before ++ render ps ↔
      s <:+: before ++ bare ps ∨ ∃ body ∈ bodies ps, s <:+: body := by
  induction ps generalizing before with
  | nil => simp [render, bare, bodies]
  | cons p ps ih =>
    cases p with
    | raw text => rw [render, bare, bodies, ← List.append_assoc, ih, List.append_assoc]
    | quoted body =>
      have hnil : s <:+: [] ↔ False := by simp [hs]
      have hrest := ih []
      rw [List.nil_append, List.nil_append] at hrest
      have hbare : s <:+: '"' :: bare ps ↔ s <:+: bare ps := by
        rw [← List.nil_append ('"' :: bare ps), infix_append_cons_iff hquote, hnil, false_or]
      rw [render, bare, bodies, List.cons_append, infix_append_cons_iff hquote,
        infix_append_cons_iff hquote, infix_append_cons_iff hquote, hbare, hrest,
        List.exists_mem_cons_iff]
      tauto

/-! ## What a value exposes -/

mutual

/-- The texts that JSON writes of keys, and of what `str` makes of objects. -/
def exposed : Value → List (List Char)
  | .str _ => []
  | .num _ => []
  | .obj shown => [escape shown.toList]
  | .list items => exposedItems items
  | .dict fields => exposedFields fields

def exposedItems : List Value → List (List Char)
  | [] => []
  | v :: vs => exposed v ++ exposedItems vs

def exposedFields : List (Key × Value) → List (List Char)
  | [] => []
  | (k, v) :: fields =>
    escape k.written.toList :: ((if isSecretKey k then [] else exposed v) ++ exposedFields fields)

end

mutual

/-- The strings that are scrubbed. -/
def strings : Value → List String
  | .str text => [text]
  | .num _ => []
  | .obj _ => []
  | .list items => stringsOfItems items
  | .dict fields => stringsOfFields fields

def stringsOfItems : List Value → List String
  | [] => []
  | v :: vs => strings v ++ stringsOfItems vs

def stringsOfFields : List (Key × Value) → List String
  | [] => []
  | (k, v) :: fields => (if isSecretKey k then [] else strings v) ++ stringsOfFields fields

end

mutual

/-- The numbers and the syntax around the strings. -/
def frame : Value → List Char
  | .str _ => ['"', '"']
  | .num literal => literal.text.toList
  | .obj _ => ['"', '"']
  | .list items => '[' :: frameItems [] items ++ [']']
  | .dict fields => '\x7b' :: frameFields [] fields ++ ['\x7d']

def frameItems (sep : List Char) : List Value → List Char
  | [] => []
  | v :: vs => sep ++ frame v ++ frameItems [',', ' '] vs

def frameFields (sep : List Char) : List (Key × Value) → List Char
  | [] => []
  | (k, v) :: fields =>
    sep ++ '"' :: '"' :: ':' :: ' ' :: (if isSecretKey k then ['"', '"'] else frame v) ++
      frameFields [',', ' '] fields

end

mutual

theorem bare_redact (secrets : Secrets) : (v : Value) →
    bare (pieces (redact secrets v)) = frame v
  | .str _ => rfl
  | .num _ => List.append_nil _
  | .obj _ => rfl
  | .list items => by
    rw [redact, pieces, frame, List.cons_append, bare, bare_append,
      bare_redactItems secrets [] items]
    rfl
  | .dict fields => by
    rw [redact, pieces, frame, List.cons_append, bare, bare_append,
      bare_redactFields secrets [] fields]
    rfl

theorem bare_redactItems (secrets : Secrets) (sep : List Piece) : (vs : List Value) →
    bare (itemPieces sep (redactItems secrets vs)) = frameItems (bare sep) vs
  | [] => rfl
  | v :: vs => by
    rw [redactItems, itemPieces, frameItems, bare_append, bare_append, bare_redact secrets v,
      bare_redactItems secrets _ vs]
    rfl

theorem bare_redactFields (secrets : Secrets) (sep : List Piece) : (fields : List (Key × Value)) →
    bare (fieldPieces sep (redactFields secrets fields)) = frameFields (bare sep) fields
  | [] => rfl
  | (k, v) :: fields => by
    have hvalue : bare (pieces (if isSecretKey k then .str "***" else redact secrets v)) =
        if isSecretKey k then ['"', '"'] else frame v := by
      split
      · rfl
      · exact bare_redact secrets v
    rw [redactFields, fieldPieces, frameFields, bare_append, bare_append, bare, bare, hvalue,
      bare_redactFields secrets _ fields]
    simp only [List.append_assoc, List.cons_append, List.nil_append]
    rfl

end

section
variable {P : List Char → Prop}

mutual

/-- Between the quotes of a redacted value stand the exposed texts and the scrubbed strings. -/
theorem bodies_redact (secrets : Secrets) (hstars : P stars) : (v : Value) →
    ((∀ b ∈ bodies (pieces (redact secrets v)), P b) ↔ (∀ b ∈ exposed v, P b) ∧
      ∀ text ∈ strings v, P (escape (scrub secrets text.toList)))
  | .str text => by simp [redact, pieces, bodies, exposed, strings]
  | .num _ => by simp [redact, pieces, bodies, exposed, strings]
  | .obj _ => by simp [redact, pieces, bodies, exposed, strings]
  | .list items => by
    have hitems := bodies_redactItems secrets hstars [] rfl items
    rw [redact, pieces, exposed, strings, List.cons_append, bodies, bodies_append]
    simpa [bodies] using hitems
  | .dict fields => by
    have hfields := bodies_redactFields secrets hstars [] rfl fields
    rw [redact, pieces, exposed, strings, List.cons_append, bodies, bodies_append]
    simpa [bodies] using hfields

theorem bodies_redactItems (secrets : Secrets) (hstars : P stars) (sep : List Piece)
    (hsep : bodies sep = []) : (vs : List Value) →
    ((∀ b ∈ bodies (itemPieces sep (redactItems secrets vs)), P b) ↔
      (∀ b ∈ exposedItems vs, P b) ∧
        ∀ text ∈ stringsOfItems vs, P (escape (scrub secrets text.toList)))
  | [] => by simp [redactItems, itemPieces, bodies, exposedItems, stringsOfItems]
  | v :: vs => by
    have hv := bodies_redact secrets hstars v
    have hvs := bodies_redactItems secrets hstars [.raw [',', ' ']] rfl vs
    rw [redactItems, itemPieces, exposedItems, stringsOfItems, bodies_append, bodies_append, hsep,
      List.nil_append]
    simp only [List.forall_mem_append, hv, hvs]
    tauto

theorem bodies_redactFields (secrets : Secrets) (hstars : P stars) (sep : List Piece)
    (hsep : bodies sep = []) : (fields : List (Key × Value)) →
    ((∀ b ∈ bodies (fieldPieces sep (redactFields secrets fields)), P b) ↔
      (∀ b ∈ exposedFields fields, P b) ∧
        ∀ text ∈ stringsOfFields fields, P (escape (scrub secrets text.toList)))
  | [] => by simp [redactFields, fieldPieces, bodies, exposedFields, stringsOfFields]
  | (k, v) :: fields => by
    have hvalue : (∀ b ∈ bodies (pieces (if isSecretKey k then .str "***" else redact secrets v)),
        P b) ↔ (∀ b ∈ (if isSecretKey k then [] else exposed v), P b) ∧
          ∀ text ∈ (if isSecretKey k then [] else strings v),
            P (escape (scrub secrets text.toList)) := by
      split
      · have hbody : P (escape "***".toList) := by
          rwa [show escape "***".toList = stars by decide]
        constructor
        · intro h
          exact ⟨by simp, by simp⟩
        · intro h b hb
          rw [List.mem_singleton.1 hb]
          exact hbody
      · exact bodies_redact secrets hstars v
    have hfields := bodies_redactFields secrets hstars [.raw [',', ' ']] rfl fields
    rw [redactFields, fieldPieces, exposedFields, stringsOfFields, bodies_append, bodies_append,
      hsep, List.nil_append, bodies, bodies]
    simp only [List.cons_append, List.forall_mem_cons, List.forall_mem_append, hvalue, hfields]
    tauto

end

end

/-! ## Lines that are free of secrets -/

/-- The secrets that cannot be found in the line of a value: none stands in a key, in what `str` makes
of an object or in a number with the syntax around it, and none is spelled by an escape. -/
structure Unexposed (secrets : Secrets) (v : Value) : Prop where
  texts : ∀ s ∈ secrets.known, ∀ text ∈ exposed v, ¬ s.toList <:+: text
  frame : ∀ s ∈ secrets.known, ¬ s.toList <:+: frame v
  escapes : ∀ s ∈ secrets.known, ∀ text ∈ strings v,
    ¬ Spells s.toList (scrub secrets text.toList)

/-- The strings of a value never expose a secret by themselves. -/
theorem infix_escape_scrub_iff {secrets : Secrets} {s : String} (hs : s ∈ secrets.known)
    (hplain : Plain s) (text : List Char) :
    s.toList <:+: escape (scrub secrets text) ↔ Spells s.toList (scrub secrets text) := by
  constructor
  · intro hin
    have hlong : 6 ≤ s.toList.length := by
      rw [String.length_toList]
      exact secrets.long s hs
    rcases infix_escape hlong hplain.2.1 hin with h | h
    · exact absurd h (not_infix_scrub hs hplain.2.2 text)
    · exact h
  · exact Spells.infix_escape

/-- No secret stands in the replacement text. -/
theorem not_infix_stars {secrets : Secrets} {s : String} (hs : s ∈ secrets.known) :
    ¬ s.toList <:+: stars := by
  intro hin
  have hlen := hin.length_le
  have hlong := secrets.long s hs
  rw [String.length_toList] at hlen
  have hstars : stars.length = 3 := rfl
  omega

/-- Where a text without quotes can stand in what is written of a value. -/
theorem infix_redact_iff {secrets : Secrets} {t : List Char} (hnil : t ≠ []) (hquote : '"' ∉ t)
    (hstars : ¬ t <:+: stars) (v : Value) : ¬ t <:+: render (pieces (redact secrets v)) ↔
      ¬ t <:+: frame v ∧ (∀ text ∈ exposed v, ¬ t <:+: text) ∧
        ∀ text ∈ strings v, ¬ t <:+: escape (scrub secrets text.toList) := by
  have hline := infix_render_iff hnil hquote (pieces (redact secrets v)) []
  rw [List.nil_append, List.nil_append, bare_redact] at hline
  have hbodies := bodies_redact (P := fun b => ¬ t <:+: b) secrets hstars v
  rw [hline, not_or, ← hbodies]
  simp only [not_exists, not_and]

theorem infix_dumps_iff {secrets : Secrets} {s : String} (hs : s ∈ secrets.known)
    (hplain : Plain s) (v : Value) : ¬ s.toList <:+: render (pieces (redact secrets v)) ↔
      ¬ s.toList <:+: frame v ∧ (∀ text ∈ exposed v, ¬ s.toList <:+: text) ∧
        ∀ text ∈ strings v, ¬ Spells s.toList (scrub secrets text.toList) := by
  rw [infix_redact_iff (ne_nil_of_long (secrets.long s hs)) hplain.1 (not_infix_stars hs) v]
  simp only [infix_escape_scrub_iff hs hplain]

/-- The line of a record. -/
theorem format_toList (secrets : Secrets) (record : LogRecord) : (format secrets record).toList =
    render (pieces (redact secrets (.dict (payload record)))) := String.toList_ofList

/-- A secret without a double quote is absent from a line exactly when the frame of the line and the
texts that are not scrubbed are free of it, and the scrubbed strings as JSON writes them. -/
theorem secret_absent_iff {secrets : Secrets} {s : String} (hs : s ∈ secrets.known)
    (hquote : '"' ∉ s.toList) (record : LogRecord) :
    ¬ s.toList <:+: (format secrets record).toList ↔
      ¬ s.toList <:+: frame (.dict (payload record)) ∧
      (∀ text ∈ exposed (.dict (payload record)), ¬ s.toList <:+: text) ∧
      ∀ text ∈ strings (.dict (payload record)), ¬ s.toList <:+: escape (scrub secrets text.toList) := by
  rw [format_toList]
  exact infix_redact_iff (ne_nil_of_long (secrets.long s hs)) hquote (not_infix_stars hs) _

/-- Any secret is absent when a part of it without a double quote is. -/
theorem secret_absent_of_part {secrets : Secrets} {s t : List Char} (hpart : t <:+: s)
    (hnil : t ≠ []) (hquote : '"' ∉ t) (hstars : ¬ t <:+: stars) {record : LogRecord}
    (hframe : ¬ t <:+: frame (.dict (payload record)))
    (htexts : ∀ text ∈ exposed (.dict (payload record)), ¬ t <:+: text)
    (hstrings : ∀ text ∈ strings (.dict (payload record)),
      ¬ t <:+: escape (scrub secrets text.toList)) :
    ¬ s <:+: (format secrets record).toList := by
  rw [format_toList]
  intro hin
  exact (infix_redact_iff hnil hquote hstars _).2 ⟨hframe, htexts, hstrings⟩ (hpart.trans hin)

/-- A line in which no secret stands shows none in a key or in what `str` makes of an object. Where no
secret has a quote, a backslash or an asterisk, a line is free of secrets exactly when the payload
exposes none. -/
theorem line_free_iff (secrets : Secrets) (record : LogRecord) :
    ((∀ s ∈ secrets.known, ¬ s.toList <:+: (format secrets record).toList) →
      ∀ s ∈ secrets.known, ∀ text ∈ exposed (.dict (payload record)), ¬ s.toList <:+: text) ∧
    ((∀ s ∈ secrets.known, Plain s) →
      ((∀ s ∈ secrets.known, ¬ s.toList <:+: (format secrets record).toList) ↔
        Unexposed secrets (.dict (payload record)))) := by
  rw [format_toList]
  constructor
  · intro hfree s hs
    have hbodies := bodies_redact (P := fun b => ¬ s.toList <:+: b) secrets (not_infix_stars hs)
      (.dict (payload record))
    refine (hbodies.1 fun b hb hin => hfree s hs ?_).1
    exact hin.trans (infix_render_of_body hb)
  · intro hplain
    constructor
    · intro hfree
      have hall (s : String) (hs : s ∈ secrets.known) :=
        (infix_dumps_iff hs (hplain s hs) (.dict (payload record))).1 (hfree s hs)
      exact ⟨fun s hs => (hall s hs).2.1, fun s hs => (hall s hs).1, fun s hs => (hall s hs).2.2⟩
    · intro h s hs
      exact (infix_dumps_iff hs (hplain s hs) _).2 ⟨h.frame s hs, h.texts s hs, h.escapes s hs⟩

theorem not_spells {s text : List Char} (h : ∀ c ∈ text, Verbatim c) : ¬ Spells s text := by
  rintro ⟨c, e, t, hc, -, -, -, -, hin⟩
  exact hc (h c (hin.subset (.head _)))

/-- The secret of a configured key. -/
def sampleSecrets : Secrets := register {} (some "A_VERY_SECRET_VALUE_123")

example : (register sampleSecrets (some "short")).known = ["A_VERY_SECRET_VALUE_123"] := by decide

/-- A failed request with the error in its fields. -/
def failedRequest (error : Value) : LogRecord where
  created := 1767225600000000
  levelname := "WARNING"
  name := "crypto_bot"
  message := "url?signature=abc&k=A_VERY_SECRET_VALUE_123"
  attributes := [("lineno", .num ⟨"45", by decide⟩), ("error", error)]

example : format sampleSecrets (failedRequest (.list [.str "A_VERY_SECRET_VALUE_123"])) =
    "\x7b\"ts\": \"2026-01-01T00:00:00+00:00\", \"level\": \"WARNING\", " ++
      "\"logger\": \"crypto_bot\", \"event\": \"url?signature=***&k=***\", " ++
      "\"error\": [\"***\"]\x7d" := by
  decide +kernel

/-- The message and the field of a failed request are scrubbed. -/
theorem failed_request_free : ∀ s ∈ sampleSecrets.known, ¬ s.toList <:+:
    (format sampleSecrets
      (failedRequest (.list [.str "A_VERY_SECRET_VALUE_123"]))).toList := by
  have hverbatim : ((strings (.dict (payload
      (failedRequest (.list [.str "A_VERY_SECRET_VALUE_123"]))))).all fun text =>
        (scrub sampleSecrets text.toList).all fun c => decide (Verbatim c)) = true := by
    decide +kernel
  refine ((line_free_iff sampleSecrets _).2 (by decide)).2 ⟨?_, ?_, ?_⟩
  · decide +kernel
  · decide +kernel
  · intro s _ text htext
    refine not_spells fun c hc => ?_
    exact of_decide_eq_true (List.all_eq_true.1 (List.all_eq_true.1 hverbatim text htext) c hc)

/-- What `str` makes of an exception is written after the redaction, and a key is not redacted. -/
theorem error_text_leaks :
    (∃ s ∈ sampleSecrets.known, ¬ s.toList <:+: stars ∧ s.toList <:+:
      (format sampleSecrets
        (failedRequest (.obj "refused: A_VERY_SECRET_VALUE_123"))).toList) ∧
    ∃ s ∈ sampleSecrets.known, ¬ s.toList <:+: stars ∧ s.toList <:+:
      (format sampleSecrets
        (failedRequest (.dict [(.str "A_VERY_SECRET_VALUE_123", .num ⟨"1", by decide⟩)]))).toList := by
  decide +kernel

end Logging

end CryptoBot
