import MsysSdk.I18n.CRetry
import MsysSdk.I18n.Template
import MsysSdk.Text.Tables

/-! The two renderers. The bytes of a template expand to the bytes of its expansion, since no
byte of a longer form is a brace or belongs to a name; C writes them if their number is a
`size_t`. -/

namespace Msys.I18n
open Python hiding Bytes
open Libc RegularExpression
open Template (expand Encoding)

/-! ### Names -/

/-- A class of ASCII characters is known from the bytes of its members. -/
theorem mem_class_iff (cs : List CodePoint) (q : UInt8 → Bool)
    (hhigh : cs.all (fun c => c.val < 0x80) = true)
    (hlow : ∀ n < 0x80, decide (CodePoint.ofNat n ∈ cs) = q (.ofNat n)) (c : CodePoint) :
    c ∈ cs ↔ (c.val < 0x80 && q (.ofNat c.val)) = true := by
  rw [Bool.and_eq_true, decide_eq_true_eq]
  constructor
  · intro hc
    have hlt : c.val < 0x80 := by simpa using List.all_eq_true.mp hhigh c hc
    refine ⟨hlt, ?_⟩
    rw [← hlow c.val hlt, ofNat_eq rfl]
    exact decide_eq_true hc
  · rintro ⟨hlt, hq⟩
    rw [← hlow c.val hlt, ofNat_eq rfl] at hq
    exact of_decide_eq_true hq

def isNameStart (b : UInt8) : Bool := isalpha b || b = chr '_'
def isNamePart (b : UInt8) : Bool := isalnum b || b = chr '_'

theorem placeholder_cons (c : CodePoint) (s : Str) : placeholder.rmatch (c :: s) =
    ((c.val < 0x80 && isNameStart (.ofNat c.val)) &&
      s.all fun c => c.val < 0x80 && isNamePart (.ofNat c.val)) := by
  have hstart := mem_class_iff (uppers ++ lowers ++ [ch '_']) isNameStart
    (by decide +kernel) (by decide +kernel)
  have hpart := mem_class_iff (uppers ++ lowers ++ digits ++ [ch '_']) isNamePart
    (by decide +kernel) (by decide +kernel)
  rw [Bool.eq_iff_iff, rmatch_iff_matches', placeholder, mem_comp, Bool.and_eq_true, ← hstart,
    List.all_eq_true]
  constructor
  · rintro ⟨y, hy, z, hz, hsplit⟩
    obtain ⟨d, hd, rfl⟩ := mem_oneOf.mp hy
    obtain ⟨rfl, rfl⟩ := List.cons.inj hsplit
    exact ⟨hd, fun x hx => (hpart x).mp (mem_star_oneOf.mp hz x hx)⟩
  · rintro ⟨hc, hs⟩
    exact ⟨[c], mem_oneOf.mpr ⟨c, hc, rfl⟩, s,
      mem_star_oneOf.mpr fun x hx => (hpart x).mpr (hs x hx), rfl⟩

theorem isName_cons (b : UInt8) (bs : Libc.Bytes) :
    C.braces.isName (b :: bs) = (isNameStart b && bs.all isNamePart) := by
  have hany : (bs.any fun b => !isNamePart b) = !bs.all isNamePart := by
    rw [List.not_all_eq_any_not]
  change (decide (b :: bs ≠ []) && !(!isNameStart b || bs.any fun b => !isNamePart b)) = _
  rw [hany]
  simp

theorem isNamePart_high (b : UInt8) (h : 0x80 ≤ b.toNat) :
    isNameStart b = false ∧ isNamePart b = false := by
  have key : ∀ n < 0x80, isNameStart (.ofNat (0x80 + n)) = false ∧
      isNamePart (.ofNat (0x80 + n)) = false := by decide +kernel
  have hb := key (b.toNat - 0x80) (by have := b.toNat_lt; omega)
  rwa [Nat.add_sub_cancel' h, UInt8.ofNat_toNat] at hb

theorem isName_utf8 {s : Str} (hs : Encodable s) :
    C.braces.isName (utf8 s) = placeholder.rmatch s := by
  cases s with
  | nil => rfl
  | cons c s =>
    obtain ⟨hc, hs⟩ := List.forall_mem_cons.mp hs
    rw [placeholder_cons, utf8_cons]
    rcases form_cases hc with ⟨hlow, hform⟩ | ⟨hhigh, b, bs, hform, hbytes⟩
    · rw [hform, List.singleton_append, isName_cons,
        all_utf8 (fun b hb => (isNamePart_high b hb).2) hs, decide_eq_true hlow, Bool.true_and]
    · rw [hform, List.cons_append, isName_cons, decide_eq_false (Nat.not_lt.mpr hhigh),
        (isNamePart_high b (hbytes b List.mem_cons_self)).1]
      rfl

theorem utf8_encoding : Encoding (fun c : CodePoint => c.isSurrogate = false) braces C.braces
    (fun c => (encodeChar c).getD []) where
  opening := rfl
  closing := rfl
  nonempty c hc := by
    rcases form_cases hc with ⟨-, hform⟩ | ⟨-, b, bs, hform, -⟩ <;> rw [hform] <;> simp
  plain c hc ho hcl := by
    rcases form_cases hc with ⟨hlow, hform⟩ | ⟨-, b, bs, hform, hbytes⟩
    · have other : ∀ d : Char, d.toNat < 0x80 → c ≠ ch d → chr d ∉ [UInt8.ofNat c.val] := by
        intro d hd hne h
        have hval := congrArg UInt8.toNat (List.mem_singleton.mp h)
        rw [toNat_chr (by omega), byte_val (by omega), ← ch_val hd] at hval
        exact hne (Fin.ext hval.symm)
      rw [hform]
      exact ⟨other '{' (by decide) ho, other '}' (by decide) hcl⟩
    · rw [hform]
      exact ⟨fun h => absurd (hbytes _ h) (by decide), fun h => absurd (hbytes _ h) (by decide)⟩
  isName _ hs := isName_utf8 hs

/-! ### Parameters -/

/-- A finite map from names to strings, as the C SDK gets it. -/
def toParams (params : List (Str × Str)) : List C.Param :=
  params.map fun p => ⟨some (cBytes p.1), some (cBytes p.2)⟩

/-- The same map, as Python gets it. -/
def arguments (params : List (Str × Str)) (name : Str) : Option Value :=
  (params.lookup name).map .str

theorem findParam_toParams {params : List (Str × Str)} (hp : ∀ p ∈ params, CText p.1 ∧ CText p.2)
    {name : Str} (hname : Encodable name) :
    C.findParam (utf8 name) (toParams params) = (params.lookup name).map utf8 := by
  induction params with
  | nil => rfl
  | cons p params ih =>
    obtain ⟨⟨hkey, hvalue⟩, htail⟩ := List.forall_mem_cons.mp hp
    obtain ⟨key, value⟩ := p
    have hsame : ((utf8 key).length = (utf8 name).length && utf8 key = utf8 name) =
        (name == key) := by
      rw [Bool.eq_iff_iff, Bool.and_eq_true, decide_eq_true_eq, decide_eq_true_eq, beq_iff_eq,
        utf8_inj hkey.encodable hname]
      exact ⟨fun h => h.2.symm, fun h => ⟨by rw [h], h.symm⟩⟩
    rw [toParams, List.map_cons, hkey.cBytes_eq, hvalue.cBytes_eq, C.findParam, hsame,
      List.lookup_cons, ← toParams, ih htail]
    cases name == key <;> rfl

theorem rendered_arguments (params : List (Str × Str)) (name : Str) :
    rendered (arguments params name) = params.lookup name := by
  rw [arguments]
  cases params.lookup name <;> rfl

theorem fillWith_utf8 {params : List (Str × Str)} (hp : ∀ p ∈ params, CText p.1 ∧ CText p.2)
    {name : Str} (hname : Encodable name) : C.fillWith (toParams params) (utf8 name) =
      utf8 (fillWith (arguments params) name) := by
  rw [C.fillWith, findParam_toParams hp hname, fillWith, rendered_arguments]
  cases params.lookup name with
  | some value => rfl
  | none =>
    rw [Option.map_none, Option.getD_none, Option.getD_none, visible, utf8_append,
      utf8_cons_ch (by decide), utf8_ch (by decide)]

theorem encodable_fillWith {params : List (Str × Str)} (hp : ∀ p ∈ params, Encodable p.2)
    {name : Str} (hname : Encodable name) : Encodable (fillWith (arguments params) name) := by
  rw [fillWith, rendered_arguments]
  cases hlookup : params.lookup name with
  | some value =>
    exact hp (name, value) (Tables.mem_of_lookup hlookup)
  | none =>
    rw [Option.getD_none, visible]
    refine List.forall_mem_append.mpr ⟨List.forall_mem_cons.mpr ⟨rfl, hname⟩, ?_⟩
    exact List.forall_mem_singleton.mpr rfl

/-! ### The expansions -/

section
variable {u : UnicodeData} {template : Str} {params : List (Str × Str)} {bits : Nat}

theorem expand_cBytes (ht : CText template) (hp : ∀ p ∈ params, CText p.1 ∧ CText p.2) :
    expand C.braces (C.fillWith (toParams params)) .text (cBytes template) =
      (expand braces (fillWith (arguments params)) .text template).map utf8 := by
  rw [ht.cBytes_eq]
  exact @Encoding.expand _ _ _ _ _ _ _ _ _ _ utf8_encoding
    (fun _ hn _ => fillWith_utf8 hp hn) _ ht.encodable .text trivial

theorem encodable_expand (ht : CText template) (hp : ∀ p ∈ params, CText p.1 ∧ CText p.2)
    {text : Str} (h : expand braces (fillWith (arguments params)) .text template = some text) :
    Encodable text :=
  @Template.expand_forall _ _ _ _ _
    (fun _ hn => encodable_fillWith (fun p h => (hp p h).2.encodable) hn) _ ht.encodable .text
    trivial _ h

/-- What Python makes of a template that C expands. -/
theorem render_of_expand (ht : CText template) (hp : ∀ p ∈ params, CText p.1 ∧ CText p.2)
    {bytes : Libc.Bytes}
    (h : expand C.braces (C.fillWith (toParams params)) .text (cBytes template) = some bytes) :
    (parseTemplate u template).2 = [] ∧
      encodeUtf8 (render u template (arguments params)).1 = some bytes := by
  rw [expand_cBytes ht hp] at h
  obtain ⟨text, hpython, rfl⟩ := Option.map_eq_some_iff.mp h
  refine ⟨?_, ?_⟩
  · by_contra herrors
    rw [(errors_ne_nil_iff _).mp herrors] at hpython
    cases hpython
  · rw [render_output hpython, encodable_iff.mp (encodable_expand ht hp hpython)]

theorem errors_iff (ht : CText template) (hp : ∀ p ∈ params, CText p.1 ∧ CText p.2) :
    (parseTemplate u template).2 ≠ [] ↔
      expand C.braces (C.fillWith (toParams params)) .text (cBytes template) = none := by
  rw [errors_ne_nil_iff (fillWith (arguments params)), expand_cBytes ht hp, Option.map_eq_none_iff]

/-! ### The two renderers -/

/-- C refuses the template if Python finds an error in it, and else, with a capacity greater than
`*required`, writes the UTF-8 of what Python renders. -/
def RenderersAgree (bits : Nat) (u : UnicodeData) (template : Str) (params : List (Str × Str)) :
    Prop :=
  ∀ (output : Option Buffer) (capacity : Nat), capacity < 2 ^ bits →
    (capacity ≠ 0 → output.isSome = true) →
    let r := C.render bits (some (cBytes template)) (some (toParams params)) output capacity
    (r.result = .invalidTemplate ↔ (parseTemplate u template).2 ≠ []) ∧
      ((parseTemplate u template).2 = [] → ∀ n ∈ r.required, n < capacity →
        r.result = .ok ∧ ∃ m ∈ r.buffer, m n = 0 ∧
          encodeUtf8 (render u template (arguments params)).1 = some (m.read n))

theorem result_invalid_iff {message : Libc.Bytes} {params : List C.Param} {output : Option Buffer}
    {capacity : Nat} (hout : capacity ≠ 0 → output.isSome = true) :
    (C.render bits (some message) (some params) output capacity).result = .invalidTemplate ↔
      expand C.braces (C.fillWith params) .text message = none := by
  rw [C.render_some hout, C.renderMessage_result, ← (C.appended_expand params le_rfl).invalid]
  split_ifs with hinvalid <;> simp [hinvalid]

/-- A length that wraps to less than `SIZE_MAX` is the length of something else. -/
theorem not_renderersAgree (ht : CText template) (hp : ∀ p ∈ params, CText p.1 ∧ CText p.2)
    {bytes : Libc.Bytes}
    (h : expand C.braces (C.fillWith (toParams params)) .text (cBytes template) = some bytes)
    (hlong : 2 ^ bits ≤ bytes.length) (hwraps : bytes.length % 2 ^ bits ≠ 2 ^ bits - 1) :
    ¬RenderersAgree bits u template params := by
  intro hall
  obtain ⟨hparses, hrender⟩ := render_of_expand (u := u) ht hp h
  have hmod := Nat.mod_lt bytes.length (Nat.two_pow_pos bits)
  obtain ⟨-, hok⟩ := hall (some fun _ => 0) (bytes.length % 2 ^ bits + 1) (by omega) fun _ => rfl
  have hrequired := @C.renderMessage_required bits (cBytes template) (toParams params)
    (some fun _ => 0) (bytes.length % 2 ^ bits + 1)
  rw [C.length_outputText, (C.length_expand bits h).2, ← C.render_some fun _ => rfl] at hrequired
  obtain ⟨-, m, -, -, hbytes⟩ := hok hparses _ hrequired (Nat.lt_succ_self _)
  have hlen : bytes.length = bytes.length % 2 ^ bits := by
    simpa [Buffer.read] using congrArg List.length (Option.some.inj (hrender.symm.trans hbytes))
  omega

/-- The two renderers accept the same templates and render them alike, unless the expansion has more
bytes than a `size_t` can say. -/
theorem renderers_agree (bits : Nat) {u : UnicodeData} {template : Str} (ht : CText template)
    {params : List (Str × Str)} (hp : ∀ p ∈ params, CText p.1 ∧ CText p.2) :
    RenderersAgree bits u template params ↔
      ∀ bytes, expand C.braces (C.fillWith (toParams params)) .text (cBytes template) =
          some bytes →
        bytes.length < 2 ^ bits ∨ bytes.length % 2 ^ bits = 2 ^ bits - 1 := by
  constructor
  · intro hagree bytes h
    by_contra hlong
    rw [not_or, Nat.not_lt] at hlong
    exact not_renderersAgree ht hp h hlong.1 hlong.2 hagree
  · intro hfits output capacity hcap hout
    refine ⟨(result_invalid_iff hout).trans (errors_iff ht hp).symm, fun hparses n hn hroom => ?_⟩
    obtain ⟨bytes, h⟩ := Option.ne_none_iff_exists'.mp fun hnone =>
      (errors_iff (u := u) ht hp).mpr hnone hparses
    obtain ⟨-, hlength⟩ := C.length_expand bits h
    rw [C.render_some hout, C.renderMessage_required, C.length_outputText, hlength,
      Option.mem_some_iff] at hn
    subst hn
    have hlt : bytes.length < 2 ^ bits := (hfits bytes h).resolve_right fun hlast => by omega
    rw [Nat.mod_eq_of_lt hlt] at hroom ⊢
    obtain ⟨initial, rfl⟩ : ∃ initial, output = some initial :=
      Option.isSome_iff_exists.mp (hout (by omega))
    have hrenders := C.render_fits bits h (by omega) hout
    obtain ⟨m, hm, -, hwritten⟩ := hrenders.buffer initial rfl
    obtain ⟨hread, hend⟩ := hwritten (by omega)
    rw [Nat.min_eq_left (by omega)] at hread hend
    rw [List.take_of_length_le (by omega)] at hread
    refine ⟨by rw [hrenders.result, if_pos rfl, if_pos hroom], m, hm, hend, ?_⟩
    rw [hread]
    exact (render_of_expand ht hp h).2

end

theorem renderers_agree_greeting : ∃ m ∈ (C.render 32 (some (cBytes (str "Hello, \x7bname\x7d")))
    (some (toParams [(str "name", str "Ada")])) (some fun _ => 0) 64).buffer,
      m.holds (Libc.text "Hello, Ada") := by
  have htemplate : CText (str "Hello, \x7bname\x7d") := cText_map_ch rfl
  have hparams : ∀ p ∈ [(str "name", str "Ada")], CText p.1 ∧ CText p.2 :=
    List.forall_mem_singleton.mpr ⟨cText_map_ch rfl, cText_map_ch rfl⟩
  have hexpand : expand C.braces (C.fillWith (toParams [(str "name", str "Ada")])) .text
      (cBytes (str "Hello, \x7bname\x7d")) = some (Libc.text "Hello, Ada") := by decide +kernel
  have hagree : RenderersAgree 32 .ascii (str "Hello, \x7bname\x7d") [(str "name", str "Ada")] :=
    (renderers_agree 32 htemplate hparams).mpr fun bytes h => by
      obtain rfl := Option.some.inj (hexpand.symm.trans h)
      exact .inl (by decide)
  have hrequired : (C.render 32 (some (cBytes (str "Hello, \x7bname\x7d")))
      (some (toParams [(str "name", str "Ada")])) (some fun _ => 0) 64).required = some 10 := by
    decide +kernel
  obtain ⟨-, m, hm, hend, hbytes⟩ := (hagree (some fun _ => 0) 64 (by decide) fun _ => rfl).2
    (by decide +kernel) 10 hrequired (by decide)
  have hgreeting : encodeUtf8 (render .ascii (str "Hello, \x7bname\x7d")
      (arguments [(str "name", str "Ada")])).1 = some (Libc.text "Hello, Ada") := by decide +kernel
  exact ⟨m, hm, (Option.some.inj (hgreeting.symm.trans hbytes)).symm, hend⟩

/-- The template of `repeated`, as Python has it. -/
def repeatedTemplate (n : Nat) : Str := (List.replicate n (str "\x7ba\x7d")).flatten

theorem repeatedTemplate_cText (n : Nat) :
    CText (repeatedTemplate n) ∧ cBytes (repeatedTemplate n) = C.repeated n := by
  induction n with
  | zero => exact ⟨⟨List.forall_mem_nil _, List.not_mem_nil⟩, rfl⟩
  | succ n ih =>
    obtain ⟨ih, hrepeated⟩ := ih
    have hfirst : CText (str "\x7ba\x7d") := cText_map_ch rfl
    have hall : CText (str "\x7ba\x7d" ++ repeatedTemplate n) := hfirst.append ih
    refine ⟨hall, ?_⟩
    rw [ih.cBytes_eq] at hrepeated
    have hcons : repeatedTemplate (n + 1) = str "\x7ba\x7d" ++ repeatedTemplate n := rfl
    rw [hcons, hall.cBytes_eq, utf8_append, hrepeated]
    rfl

theorem replicate_cText (n : Nat) :
    CText (List.replicate n (ch 'x')) ∧
      cBytes (List.replicate n (ch 'x')) = List.replicate n 0x78 := by
  have hx : List.replicate n (ch 'x') = (List.replicate n 'x').map ch := List.map_replicate.symm
  have htext : CText (List.replicate n (ch 'x')) := by
    rw [hx]
    refine cText_map_ch (List.all_eq_true.mpr fun c hc => ?_)
    rw [List.eq_of_mem_replicate hc]
    rfl
  refine ⟨htext, ?_⟩
  rw [htext.cBytes_eq, hx, utf8_map_ch fun c hc => by
    rw [List.eq_of_mem_replicate hc]
    decide]
  exact List.map_replicate

/-- On a 32-bit target, 65537 placeholders for a value of 65537 bytes: the length wraps to 131073. -/
theorem expansion_wraps : ¬ ∀ (bits : Nat) (u : UnicodeData) (template : Str)
    (params : List (Str × Str)), CText template → (∀ p ∈ params, CText p.1 ∧ CText p.2) →
      RenderersAgree bits u template params := by
  intro hall
  obtain ⟨htemplate, hmessage⟩ := repeatedTemplate_cText 65537
  obtain ⟨hvalue, hbytes⟩ := replicate_cText 65537
  have hparams : ∀ p ∈ [(str "a", List.replicate 65537 (ch 'x'))], CText p.1 ∧ CText p.2 :=
    List.forall_mem_singleton.mpr ⟨cText_map_ch rfl, hvalue⟩
  have htoParams : toParams [(str "a", List.replicate 65537 (ch 'x'))] =
      [⟨some (Libc.text "a"), some (List.replicate 65537 0x78)⟩] := by
    rw [toParams, List.map_singleton, hbytes]
    rfl
  have hexpand := C.expand_repeated (List.replicate 65537 0x78) 65537
  rw [← htoParams, ← hmessage] at hexpand
  refine not_renderersAgree htemplate hparams hexpand ?_ ?_
    (hall 32 .ascii _ _ htemplate hparams)
  · rw [C.length_repeated]
    norm_num
  · rw [C.length_repeated]
    norm_num

end Msys.I18n
