import Mathlib.Data.Bool.AllAny
import Mavicona.Mumux.Request

/-!
# Header sections

Reference: `mumux/connection.c` (`wby_connection_setup_request`), `mumux/util.c`
(`wby_tok_inplace`).

A header section is a request line and one line for each header. The tokenizer cuts it into lines,
the request line into three tokens and each header into a name and a value, and it stops after as
many tokens as its caller has room for. For the lines that is two more than there may be headers, so
that the caller, who wants to refuse a section with too many headers, never sees that there are more;
for a header it is two, but a value with a `:` in it gives more than one token.
-/

namespace Mavicona.Mumux

open Bytes Numeral

/-- `header_count`, as `wby_connection_setup_request` sets it. -/
def headerCount (section_ : Bytes) : ℤ :=
  (wbyTokInplace crlf (maxHeaders + 2) false (cstr (section_.take (section_.length - 2)))).length - 2

/-! ## Sections -/

/-- A token of a request line. -/
structure Token where
  text : Bytes
  ne_nil : text ≠ []
  unbroken : ∀ b ∈ text, b ≠ 32 ∧ b ≠ 9 ∧ b ≠ 13 ∧ b ≠ 10

structure RequestLine where
  method : Token
  uri : Token
  httpVersion : Token

/-- A header that a client may send. -/
structure Field where
  name : Bytes
  value : Bytes
  name_ne_nil : name ≠ []
  name_unbroken : ∀ b ∈ name, b ≠ 58 ∧ b ≠ 32 ∧ b ≠ 9 ∧ b ≠ 13 ∧ b ≠ 10
  value_ne_nil : value ≠ []
  value_unbroken : ∀ b ∈ value, b ≠ 13 ∧ b ≠ 10 ∧ b ≠ 0
  value_head : ∀ b ∈ value.head?, b ≠ 32 ∧ b ≠ 9

def Field.header (f : Field) : Header := ⟨f.name, f.value⟩

def RequestLine.text (line : RequestLine) : Bytes :=
  line.method.text ++ 32 :: (line.uri.text ++ 32 :: line.httpVersion.text)

def Field.text (f : Field) : Bytes := f.name ++ 58 :: 32 :: f.value

/-- The section of a request line and its headers. -/
def sectionText (line : RequestLine) (fields : List Field) : Bytes :=
  line.text ++ crlf ++ (fields.map fun f => f.text ++ crlf).flatten ++ crlf

def Field.isTransferEncoding (f : Field) : Bool := caseEq (ascii "transfer-encoding") f.name

/-- What is to be read of a section: all headers as they are, or nothing. There is nothing to be read
of one with too many headers or with a transfer encoding. -/
def ReadsHeaders (line : RequestLine) (fields : List Field) : Prop :=
  (setupRequest (sectionText line fields) = none ∨
    headerCount (sectionText line fields) = fields.length ∧
      ∃ r, setupRequest (sectionText line fields) = some r ∧ r.headers = fields.map Field.header) ∧
  (maxHeaders < fields.length ∨ (∃ f ∈ fields, f.isTransferEncoding = true) →
    setupRequest (sectionText line fields) = none)

/-- The headers whose lines are looked at. A NUL in a name is the end of the section. -/
def reached (fields : List Field) : List Field :=
  (fields.takeWhile fun f => 0 ∉ f.name).take maxHeaders

/-! ## The tokenizer -/

section Tokens

variable {c : UInt8} {sep s t last : Bytes} {max fuel : ℕ} {lines : List Bytes}

theorem strstr_append (hs : c ∉ s) : strstr (c :: sep) (s ++ (c :: sep) ++ t) = some (s, t) := by
  induction s with
  | nil =>
    have hprefix : (c :: sep).isPrefixOf (c :: (sep ++ t)) = true :=
      List.isPrefixOf_iff_prefix.mpr (List.prefix_append (c :: sep) t)
    rw [List.nil_append, List.cons_append, strstr, if_pos hprefix, ← List.cons_append,
      List.drop_left]
  | cons b s ih =>
    rw [List.mem_cons, not_or] at hs
    have hprefix : (c :: sep).isPrefixOf (b :: (s ++ c :: sep ++ t)) = false := by
      rw [List.isPrefixOf, beq_false_of_ne hs.1, Bool.false_and]
    rw [List.cons_append, List.cons_append, strstr, hprefix, if_neg Bool.false_ne_true, ih hs.2]
    rfl

theorem strstr_eq_none (hs : c ∉ s) : strstr (c :: sep) s = none := by
  induction s with
  | nil => rfl
  | cons b s ih =>
    rw [List.mem_cons, not_or] at hs
    have hprefix : (c :: sep).isPrefixOf (b :: s) = false := by
      rw [List.isPrefixOf, beq_false_of_ne hs.1, Bool.false_and]
    rw [strstr, hprefix, if_neg Bool.false_ne_true, ih hs.2]
    rfl

/-- What stands before the first occurrence of a byte has none of it. -/
theorem strstr_singleton (s : Bytes) :
    c ∉ s ∧ strstr [c] s = none ∨
      ∃ before after, c ∉ before ∧ s = before ++ c :: after ∧
        strstr [c] s = some (before, after) := by
  by_cases hs : c ∈ s
  · obtain ⟨before, after, rfl, hbefore⟩ := List.eq_append_cons_of_mem hs
    refine .inr ⟨before, after, hbefore, rfl, ?_⟩
    have happend := @strstr_append c [] before after hbefore
    rwa [List.append_assoc] at happend
  · exact .inl ⟨hs, strstr_eq_none hs⟩

/-- A text of non-empty pieces is cut into these pieces, and no more than there is room for. -/
theorem tokLoop_pieces (hlines : ∀ l ∈ lines, l ≠ [] ∧ c ∉ l) (hlast : c ∉ last)
    (hfuel : lines.length < fuel) :
    tokLoop (c :: sep) false fuel max ((lines.map (· ++ (c :: sep))).flatten ++ last) =
      (lines ++ [last]).take max := by
  induction lines generalizing fuel max with
  | nil =>
    obtain ⟨fuel, rfl⟩ : ∃ f, fuel = f + 1 := ⟨fuel - 1, by omega⟩
    rcases max with _ | max
    · rfl
    · simp only [tokLoop, List.map_nil, List.flatten_nil, List.nil_append, Bool.false_eq_true,
        if_false, strstr_eq_none hlast, List.take_succ_cons, List.take_nil]
  | cons l lines ih =>
    obtain ⟨fuel, rfl⟩ : ∃ f, fuel = f + 1 := ⟨fuel - 1, by omega⟩
    obtain ⟨⟨hl, hc⟩, hrest⟩ := List.forall_mem_cons.mp hlines
    rcases max with _ | max
    · rfl
    · obtain ⟨b, l, rfl⟩ := List.exists_cons_of_ne_nil hl
      rw [List.length_cons] at hfuel
      rw [List.map_cons, List.flatten_cons, List.append_assoc]
      simp only [tokLoop, Bool.false_eq_true, if_false, strstr_append hc]
      rw [ih hrest (by omega)]
      rfl

theorem wbyTokInplace_pieces (hlines : ∀ l ∈ lines, l ≠ [] ∧ c ∉ l) (hlast : c ∉ last) :
    wbyTokInplace (c :: sep) max false ((lines.map (· ++ (c :: sep))).flatten ++ last) =
      (lines ++ [last]).take max := by
  refine tokLoop_pieces hlines hlast ?_
  have hcount : lines.length ≤ ((lines.map (· ++ (c :: sep))).flatten ++ last).length := by
    clear hlines
    induction lines with
    | nil => exact Nat.zero_le _
    | cons l lines ih =>
      simp only [List.map_cons, List.flatten_cons, List.length_append, List.length_cons] at ih ⊢
      omega
  omega

/-- One token with white space skipped: a single one comes out, and it has no separator. -/
theorem tokLoop_one (hfuel : s.length < fuel) :
    ∃ token, tokLoop [c] true fuel 1 s = [token] ∧ c ∉ token := by
  induction fuel generalizing s with
  | zero => omega
  | succ fuel ih =>
    have hskip : (wbySkipws s).length ≤ s.length :=
      (List.dropWhile_suffix _).length_le
    rcases strstr_singleton (c := c) (wbySkipws s) with ⟨hc, hnone⟩ | ⟨before, after, hc, hs, hsome⟩
    · refine ⟨wbySkipws s, ?_, hc⟩
      simp only [tokLoop, if_true, hnone]
    · rcases before with _ | ⟨b, before⟩
      · have hafter := congrArg List.length hs
        rw [List.nil_append, List.length_cons] at hafter
        obtain ⟨token, htoken, hc⟩ := @ih after (by omega)
        refine ⟨token, ?_, hc⟩
        simp only [tokLoop, if_true, hsome, htoken]
      · refine ⟨b :: before, ?_, hc⟩
        simp only [tokLoop, if_true, hsome]
        rcases fuel with _ | fuel <;> rfl

theorem wbySkipws_eq_self (h : ∀ b ∈ s.head?, b ≠ 32 ∧ b ≠ 9) : wbySkipws s = s := by
  rcases s with _ | ⟨b, s⟩
  · rfl
  · have hb := h b rfl
    rw [wbySkipws, List.dropWhile_cons_of_neg]
    simp [hb.1, hb.2]

end Tokens

/-! ## The headers -/

section Headers

variable {fields : List Field} {n : ℤ}

/-- The name of a header comes out as it is, and its value does if it has no `:`. -/
theorem tok_field (f : Field) : ∃ value, wbyTokInplace [58] 2 true f.text = [f.name, value] ∧
    (value = f.value ↔ 58 ∉ f.value) := by
  have hskip : wbySkipws f.text = f.text := by
    refine wbySkipws_eq_self fun b hb => ?_
    obtain ⟨c, name, hcons⟩ := List.exists_cons_of_ne_nil f.name_ne_nil
    rw [Field.text, hcons, List.cons_append, List.head?_cons, Option.mem_some_iff] at hb
    have hc := f.name_unbroken c (hcons ▸ List.mem_cons_self)
    exact hb ▸ ⟨hc.2.1, hc.2.2.1⟩
  have hvalue : wbySkipws (32 :: f.value) = f.value := wbySkipws_eq_self f.value_head
  have hname : strstr [58] f.text = some (f.name, 32 :: f.value) := by
    have happend := @strstr_append 58 [] f.name (32 :: f.value)
      fun h => (f.name_unbroken _ h).1 rfl
    rwa [List.append_assoc] at happend
  have hlen : (32 :: f.value).length < f.text.length := by
    have hpos := List.length_pos_iff.mpr f.name_ne_nil
    rw [Field.text, List.length_append, List.length_cons]
    change (32 :: f.value).length < f.name.length + ((32 :: f.value).length + 1)
    omega
  obtain ⟨b, name, hcons⟩ := List.exists_cons_of_ne_nil f.name_ne_nil
  have hfirst : wbyTokInplace [58] 2 true f.text =
      f.name :: tokLoop [58] true f.text.length 1 (32 :: f.value) := by
    rw [hcons] at hname ⊢
    simp only [wbyTokInplace, tokLoop, if_true, hskip, hname]
  obtain ⟨token, htoken, hcolon⟩ := @tokLoop_one 58 (32 :: f.value) f.text.length hlen
  refine ⟨token, by rw [hfirst, htoken], fun h => h ▸ hcolon, fun h => ?_⟩
  obtain ⟨fuel, hfuel⟩ : ∃ k, f.text.length = k + 1 := ⟨f.text.length - 1, by omega⟩
  rw [hfuel] at htoken
  simp only [tokLoop, if_true, hvalue, strstr_eq_none h] at htoken
  exact (List.singleton_inj.mp htoken).symm

/-- A length is no transfer encoding. -/
theorem not_transferEncoding_of_length {name : Bytes}
    (h : caseEq (ascii "content-length") name = true) :
    caseEq (ascii "transfer-encoding") name = false := by
  refine Bool.eq_false_iff.mpr fun hcoding => ?_
  have hlen := (length_eq_of_caseEq h).trans (length_eq_of_caseEq hcoding).symm
  exact absurd hlen (by decide)

theorem parseHeaders_field {f : Field} {value : Bytes} (lines : List Bytes)
    (htok : wbyTokInplace [58] 2 true f.text = [f.name, value]) :
    parseHeaders (f.text :: lines) n =
      if f.isTransferEncoding then none
      else (parseHeaders lines
        (if caseEq (ascii "content-length") f.name then strtoulInt value else n)).map
          fun r => (⟨f.name, value⟩ :: r.1, r.2) := by
  rw [parseHeaders, htok, Field.isTransferEncoding]
  by_cases hlength : caseEq (ascii "content-length") f.name = true
  · have hcoding := not_transferEncoding_of_length hlength
    simp only [hlength, hcoding, if_true, Bool.false_eq_true, if_false]
  · simp only [hlength, Bool.false_eq_true, if_false]

/-- A transfer encoding is refused. Without one, there is a header for each line, and the headers are
those of the client if no value has a `:`. -/
theorem parseHeaders_fields :
    (∃ f ∈ fields, f.isTransferEncoding = true) ∧ parseHeaders (fields.map Field.text) n = none ∨
    (∀ f ∈ fields, f.isTransferEncoding = false) ∧ ∃ headers k,
      parseHeaders (fields.map Field.text) n = some (headers, k) ∧ headers.length = fields.length ∧
        (headers = fields.map Field.header ↔ ∀ f ∈ fields, 58 ∉ f.value) := by
  induction fields generalizing n with
  | nil =>
    exact .inr ⟨List.forall_mem_nil _, [], n, rfl, rfl, fun _ => List.forall_mem_nil _, fun _ => rfl⟩
  | cons f fields ih =>
    obtain ⟨value, htok, hvalue⟩ := tok_field f
    rw [List.map_cons, parseHeaders_field _ htok]
    by_cases hcoding : f.isTransferEncoding = true
    · exact .inl ⟨⟨f, List.mem_cons_self, hcoding⟩, if_pos hcoding⟩
    · rw [if_neg hcoding]
      rcases @ih (if caseEq (ascii "content-length") f.name then strtoulInt value else n) with
        ⟨⟨g, hg, hgcoding⟩, hnone⟩ | ⟨hall, headers, k, hsome, hlen, heq⟩
      · exact .inl ⟨⟨g, List.mem_cons_of_mem _ hg, hgcoding⟩, by rw [hnone]; rfl⟩
      · refine .inr ⟨List.forall_mem_cons.mpr ⟨Bool.eq_false_iff.mpr hcoding, hall⟩,
          ⟨f.name, value⟩ :: headers, k, by rw [hsome]; rfl, by rw [List.length_cons, hlen]; rfl, ?_⟩
        rw [List.map_cons, List.cons.injEq, heq, List.forall_mem_cons, ← hvalue, Field.header,
          Header.mk.injEq]
        simp only [true_and]

end Headers

/-! ## The section -/

section Section

variable {s t : Bytes} {line : RequestLine} {fields : List Field}

theorem cstr_append (h : 0 ∉ s) : cstr (s ++ t) = s ++ cstr t :=
  List.takeWhile_append_of_pos fun b hb => decide_eq_true fun h0 : b = 0 => h (h0 ▸ hb)

/-- A C string ends at its first NUL. -/
theorem cstr_append_of_mem (h : 0 ∈ s) : cstr (s ++ t) = cstr s := by
  obtain ⟨before, after, rfl, hbefore⟩ := List.eq_append_cons_of_mem h
  rw [List.append_assoc, cstr_append hbefore, cstr_append hbefore]
  rfl

theorem cstr_blank : cstr (32 :: s) = 32 :: cstr s := List.takeWhile_cons_of_pos rfl

theorem not_mem_cstr {b : UInt8} (h : b ∉ s) : b ∉ cstr s :=
  fun hb => h (List.takeWhile_sublist _ |>.subset hb)

theorem Token.not_mem (t : Token) : 32 ∉ t.text ∧ 13 ∉ t.text :=
  ⟨fun h => (t.unbroken _ h).1 rfl, fun h => (t.unbroken _ h).2.2.1 rfl⟩

theorem Field.not_mem_text (f : Field) : 13 ∉ f.text := by
  rw [Field.text, List.mem_append, List.mem_cons, List.mem_cons, not_or, not_or, not_or]
  exact ⟨fun h => (f.name_unbroken _ h).2.2.2.1 rfl, by decide, by decide,
    fun h => (f.value_unbroken _ h).1 rfl⟩

theorem Field.zero_not_mem_text (f : Field) (h : 0 ∉ f.name) : 0 ∉ f.text ++ crlf := by
  rw [Field.text, List.mem_append, List.mem_append, List.mem_cons, List.mem_cons, not_or, not_or,
    not_or, not_or]
  exact ⟨⟨h, by decide, by decide, fun h => (f.value_unbroken _ h).2.2 rfl⟩, by decide⟩

/-- The lines before the first name with a NUL, and what is left of the next one. -/
theorem cstr_fields (fields : List Field) : ∃ last, 13 ∉ last ∧
    cstr (fields.map fun f => f.text ++ crlf).flatten =
      (((fields.takeWhile fun f => 0 ∉ f.name).map Field.text).map (· ++ crlf)).flatten ++ last := by
  induction fields with
  | nil => exact ⟨[], List.not_mem_nil, rfl⟩
  | cons f fields ih =>
    rw [List.map_cons, List.flatten_cons]
    by_cases hzero : 0 ∈ f.name
    · refine ⟨cstr f.name, not_mem_cstr fun h => (f.name_unbroken _ h).2.2.2.1 rfl, ?_⟩
      rw [List.takeWhile_cons_of_neg (by simp [hzero]), Field.text, List.append_assoc,
        List.append_assoc, cstr_append_of_mem hzero]
      rfl
    · obtain ⟨last, hlast, heq⟩ := ih
      refine ⟨last, hlast, ?_⟩
      rw [List.takeWhile_cons_of_pos (by simp [hzero]), cstr_append (f.zero_not_mem_text hzero), heq,
        List.map_cons, List.map_cons, List.flatten_cons, List.append_assoc _ _ last]

theorem RequestLine.text_ne_nil (line : RequestLine) : line.text ≠ [] := by
  rw [RequestLine.text]
  exact List.append_ne_nil_of_right_ne_nil _ (List.cons_ne_nil _ _)

theorem RequestLine.not_mem_text (line : RequestLine) : 13 ∉ line.text := by
  rw [RequestLine.text, List.mem_append, List.mem_cons, List.mem_append, List.mem_cons, not_or,
    not_or, not_or, not_or]
  exact ⟨line.method.not_mem.2, by decide, line.uri.not_mem.2, by decide, line.httpVersion.not_mem.2⟩

/-- The section without the empty line at its end. -/
theorem take_sectionText (line : RequestLine) (fields : List Field) :
    (sectionText line fields).take ((sectionText line fields).length - 2) =
      line.text ++ (crlf ++ (fields.map fun f => f.text ++ crlf).flatten) := by
  rw [sectionText, List.length_append]
  change List.take (_ + 2 - 2) _ = _
  rw [Nat.add_sub_cancel, List.take_left, List.append_assoc]

/-- The lines that there is room for. -/
theorem tok_section (fields : List Field) (hzero : 0 ∉ line.text) : ∃ last,
    wbyTokInplace crlf (maxHeaders + 2) false
        (cstr ((sectionText line fields).take ((sectionText line fields).length - 2))) =
      line.text ::
        (((fields.takeWhile fun f : Field => 0 ∉ f.name).map Field.text ++ [last]).take
          (maxHeaders + 1)) := by
  obtain ⟨last, hlast, heq⟩ := cstr_fields fields
  refine ⟨last, ?_⟩
  have hcrlf : (0 : UInt8) ∉ crlf := by decide
  rw [take_sectionText, cstr_append hzero, cstr_append hcrlf, heq]
  have hpieces : ∀ l ∈ line.text :: (fields.takeWhile fun f : Field => 0 ∉ f.name).map Field.text,
      l ≠ [] ∧ 13 ∉ l := by
    refine List.forall_mem_cons.mpr ⟨⟨line.text_ne_nil, line.not_mem_text⟩, fun l hl => ?_⟩
    obtain ⟨f, -, rfl⟩ := List.mem_map.mp hl
    exact ⟨List.append_ne_nil_of_right_ne_nil _ (List.cons_ne_nil _ _), f.not_mem_text⟩
  have htok := @wbyTokInplace_pieces 13 [10] last (maxHeaders + 2) _ hpieces hlast
  rw [List.map_cons, List.flatten_cons, List.append_assoc, List.append_assoc] at htok
  exact htok

/-- The lines that are read are those in front of the last token. -/
theorem take_lines (lines : List Bytes) (last : Bytes) (n : ℕ) :
    ((lines ++ [last]).take (n + 1)).take (((lines ++ [last]).take (n + 1)).length + 1 - 2) =
      lines.take n := by
  have hlen : ((lines ++ [last]).take (n + 1)).length + 1 - 2 = min n lines.length := by
    rw [List.length_take, List.length_append, List.length_singleton]
    omega
  rw [hlen, List.take_take, Nat.min_eq_left (by omega),
    List.take_append_of_le_length (Nat.min_le_right _ _), ← List.take_take, List.take_length]

theorem length_take_lines (lines : List Bytes) (last : Bytes) (n : ℕ) :
    ((lines ++ [last]).take (n + 1)).length = (lines.take n).length + 1 := by
  rw [List.length_take, List.length_take, List.length_append, List.length_singleton]
  omega

/-- Tokens with a blank in between. The last one may be cut short. -/
theorem tok_tokens (tokens : List Token) {last : Bytes} (hlast : 32 ∉ last)
    (hmax : tokens.length < 16) :
    wbyTokInplace [32] 16 false ((tokens.map fun t => t.text ++ [32]).flatten ++ last) =
      tokens.map Token.text ++ [last] := by
  have hpieces : ∀ l ∈ tokens.map Token.text, l ≠ [] ∧ 32 ∉ l := by
    intro l hl
    obtain ⟨t, -, rfl⟩ := List.mem_map.mp hl
    exact ⟨t.ne_nil, t.not_mem.1⟩
  have htok := @wbyTokInplace_pieces 32 [] last 16 _ hpieces hlast
  rw [List.map_map, List.take_of_length_le] at htok
  · exact htok
  · rw [List.length_append, List.length_map, List.length_singleton]
    omega

theorem RequestLine.text_eq (line : RequestLine) :
    line.text = ([line.method, line.uri].map fun t => t.text ++ [32]).flatten ++
      line.httpVersion.text := by
  simp only [RequestLine.text, List.map_cons, List.map_nil, List.flatten_cons, List.flatten_nil,
    List.append_assoc, List.cons_append, List.nil_append]

theorem setupRequest_section (fields : List Field) (hzero : 0 ∉ line.text) :
    headerCount (sectionText line fields) = (reached fields).length ∧
      ∃ g : List Header × ℤ → Request, (∀ p, (g p).headers = p.1) ∧
        setupRequest (sectionText line fields) =
          (parseHeaders ((reached fields).map Field.text) 0).map g := by
  obtain ⟨last, htok⟩ := tok_section fields hzero
  constructor
  · rw [headerCount, htok, List.length_cons, length_take_lines, reached, ← List.map_take,
      List.length_map]
    omega
  · have htake := take_lines ((fields.takeWhile fun f => 0 ∉ f.name).map Field.text) last maxHeaders
    rw [← List.map_take] at htake
    have htokens := tok_tokens [line.method, line.uri] line.httpVersion.not_mem.1 (by simp)
    rw [← line.text_eq] at htokens
    rw [setupRequest, htok]
    simp only [htokens, List.map_cons, List.map_nil, List.cons_append, List.nil_append,
      List.length_cons, htake]
    exact ⟨_, fun p => rfl, rfl⟩

/-- A section that ends within its request line has one line, and no room for an empty one. -/
theorem setupRequest_nul (fields : List Field) (hzero : 0 ∈ line.text) :
    headerCount (sectionText line fields) = -1 ∧
      (setupRequest (sectionText line fields) = none ↔
        0 ∈ line.method.text ∨ 0 ∈ line.uri.text) := by
  have hlines : wbyTokInplace crlf (maxHeaders + 2) false (cstr line.text) = [cstr line.text] :=
    @wbyTokInplace_pieces 13 [10] (cstr line.text) (maxHeaders + 2) [] (List.forall_mem_nil _)
      (not_mem_cstr line.not_mem_text)
  rw [headerCount, setupRequest, take_sectionText, cstr_append_of_mem hzero, hlines]
  refine ⟨rfl, ?_⟩
  by_cases hmethod : 0 ∈ line.method.text
  · have htokens := tok_tokens [] (not_mem_cstr line.method.not_mem.1) (by decide)
    rw [List.map_nil, List.flatten_nil, List.nil_append] at htokens
    rw [RequestLine.text, cstr_append_of_mem hmethod]
    simp only [htokens, hmethod, List.map_nil, List.nil_append, true_or]
  · rw [RequestLine.text, cstr_append hmethod, cstr_blank]
    by_cases huri : 0 ∈ line.uri.text
    · have htokens := tok_tokens [line.method] (not_mem_cstr line.uri.not_mem.1) (by simp)
      simp only [List.map_cons, List.map_nil, List.flatten_cons, List.flatten_nil,
        List.append_assoc, List.cons_append, List.nil_append] at htokens
      rw [cstr_append_of_mem huri]
      simp only [htokens, huri, or_true]
    · have htokens := tok_tokens [line.method, line.uri] (not_mem_cstr line.httpVersion.not_mem.1)
        (by simp)
      simp only [List.map_cons, List.map_nil, List.flatten_cons, List.flatten_nil,
        List.append_assoc, List.cons_append, List.nil_append] at htokens
      rw [cstr_append huri, cstr_blank]
      simp only [htokens, hmethod, huri, or_self, iff_false]
      exact nofun

theorem reached_eq_self_iff :
    reached fields = fields ↔ fields.length ≤ maxHeaders ∧ ∀ f ∈ fields, 0 ∉ f.name := by
  constructor
  · intro h
    refine ⟨h ▸ List.length_take_le _ _, fun f hf => ?_⟩
    rw [← h, reached] at hf
    have hname := List.mem_takeWhile_imp (List.mem_of_mem_take hf)
    exact of_decide_eq_true hname
  · rintro ⟨hlen, hnames⟩
    have hall : (fields.takeWhile fun f => 0 ∉ f.name) = fields :=
      List.takeWhile_eq_self_iff.mpr fun f hf => decide_eq_true (hnames f hf)
    rw [reached, hall, List.take_of_length_le hlen]

theorem reached_eq_self_of_length (h : (reached fields).length = fields.length) :
    reached fields = fields :=
  ((List.take_sublist _ _).trans (List.takeWhile_sublist _)).eq_of_length h

/-- **When a header section is read as it is.** There has to be no NUL in the names, no more headers
than there is room for, and no `:` in a value, as there is in the `Host` of a server with a port. A
section that is refused for a transfer encoding, or because it ends within its request line, may have
all of these. -/
theorem readsHeaders_iff (line : RequestLine) (fields : List Field) : ReadsHeaders line fields ↔
    0 ∈ line.method.text ∨ 0 ∈ line.uri.text ∨ 0 ∉ line.httpVersion.text ∧
      ((∃ f ∈ reached fields, f.isTransferEncoding = true) ∨
        fields.length ≤ maxHeaders ∧ ∀ f ∈ fields, 0 ∉ f.name ∧ 58 ∉ f.value) := by
  have hzero : 0 ∈ line.text ↔
      0 ∈ line.method.text ∨ 0 ∈ line.uri.text ∨ 0 ∈ line.httpVersion.text := by
    simp [RequestLine.text]
  by_cases hline : 0 ∈ line.text
  · obtain ⟨hcount, hnone⟩ := setupRequest_nul fields hline
    by_cases hshort : 0 ∈ line.method.text ∨ 0 ∈ line.uri.text
    · have hrejected := hnone.mpr hshort
      exact ⟨fun _ => hshort.imp_right .inl, fun _ => ⟨.inl hrejected, fun _ => hrejected⟩⟩
    · have hversion : 0 ∈ line.httpVersion.text := by
        have := hzero.mp hline
        tauto
      constructor
      · rintro ⟨hrejected | ⟨hlen, -⟩, -⟩
        · exact absurd (hnone.mp hrejected) hshort
        · omega
      · rintro (h | h | h)
        · exact absurd (.inl h) hshort
        · exact absurd (.inr h) hshort
        · exact absurd hversion h.1
  · obtain ⟨hcount, g, hg, hsetup⟩ := setupRequest_section fields hline
    rw [hzero, not_or, not_or] at hline
    simp only [hline, false_or, not_false_eq_true, true_and]
    rcases @parseHeaders_fields (reached fields) 0 with
      ⟨hcoding, hnone⟩ | ⟨hcoding, headers, k, hsome, hlen, hheaders⟩
    · have hrejected : setupRequest (sectionText line fields) = none := by rw [hsetup, hnone]; rfl
      exact ⟨fun _ => .inl hcoding, fun _ => ⟨.inl hrejected, fun _ => hrejected⟩⟩
    · have hread : setupRequest (sectionText line fields) = some (g (headers, k)) := by
        rw [hsetup, hsome]
        rfl
      have hsplit : (∀ f ∈ fields, 0 ∉ f.name ∧ 58 ∉ f.value) ↔
          (∀ f ∈ fields, 0 ∉ f.name) ∧ ∀ f ∈ fields, 58 ∉ f.value := by
        simp only [forall_and]
      rw [hsplit, ← and_assoc, ← reached_eq_self_iff]
      constructor
      · rintro ⟨hrejected | ⟨hlength, r, hr, hfields⟩, -⟩
        · rw [hread] at hrejected
          exact absurd hrejected nofun
        · have hcounts : (reached fields).length = fields.length := by omega
          have hself := reached_eq_self_of_length hcounts
          obtain rfl := Option.some.inj (hread.symm.trans hr)
          rw [hself] at hheaders
          rw [hg] at hfields
          exact .inr ⟨hself, hheaders.mp hfields⟩
      · rintro (⟨f, hf, h⟩ | ⟨hself, hvalues⟩)
        · exact absurd h (Bool.eq_false_iff.mp (hcoding f hf))
        · have hroom := (reached_eq_self_iff.mp hself).1
          rw [hself] at hcount hheaders hcoding
          refine ⟨.inr ⟨hcount, _, hread, (hg _).trans (hheaders.mpr hvalues)⟩, ?_⟩
          rintro (hmany | ⟨f, hf, h⟩)
          · omega
          · exact absurd h (Bool.eq_false_iff.mp (hcoding f hf))

/-- `GET / HTTP/1.1`. -/
def getRequest : RequestLine where
  method := ⟨ascii "GET", by decide, List.all_iff_forall_prop.mp (by decide)⟩
  uri := ⟨ascii "/", by decide, List.all_iff_forall_prop.mp (by decide)⟩
  httpVersion := ⟨ascii "HTTP/1.1", by decide, List.all_iff_forall_prop.mp (by decide)⟩

/-- `Host: localhost:8080`. -/
def hostPort : Field where
  name := ascii "Host"
  value := ascii "localhost:8080"
  name_ne_nil := by decide
  name_unbroken := List.all_iff_forall_prop.mp (by decide)
  value_ne_nil := by decide
  value_unbroken := List.all_iff_forall_prop.mp (by decide)
  value_head b hb := (Option.some.inj hb : 108 = b) ▸ by decide

/-- The port of a host is left out. -/
theorem not_readsHeaders_port : ¬ ReadsHeaders getRequest [hostPort] := by
  have hsetup : (setupRequest (sectionText getRequest [hostPort])).map Request.headers =
      some [⟨ascii "Host", ascii "localhost"⟩] := by decide
  rintro ⟨hnone | ⟨-, r, hr, hheaders⟩, -⟩
  · rw [hnone] at hsetup
    exact absurd hsetup nofun
  · rw [hr, Option.map_some, hheaders] at hsetup
    exact absurd hsetup (by decide)

end Section

end Mavicona.Mumux
