import MsysSdk.Python.JsonPrefix
import MsysSdk.Wire.Acceptance
import MsysSdk.Wire.Messages

/-! What the Python endpoints read from a packet of the C SDK. The payload is the text that the
component gave, white space and all; the arguments are UTF-8. -/

namespace Msys.Wire
open Python

/-- `json.loads` of a text that is to stand in a record, one level down. -/
def loadsWithin (py : Interpreter) (finiteOnly : Bool) (json : Libc.Bytes) :
    Except LoadsError Value :=
  match decodeUtf8 json with
  | none => .error .unicode
  | some s => do
    let (v, rest) ← scanValue py finiteOnly (s.length + 1) (py.recursionLimit - 1) (skipSpace s)
    if skipSpace rest = [] then .ok v else .error .malformed

/-- The value that the field has for Python. -/
def Denotes (py : Interpreter) (v : Value) : Mipc.FieldValue → Prop
  | .string s => ∃ u, decodeUtf8 s = some u ∧ v = .str u
  | .integer n => v = .int n.toNat
  | .raw json => ∀ finiteOnly, loadsWithin py finiteOnly json = .ok v

structure FieldDenotes (py : Interpreter) (f : Mipc.Field) (e : Value × Value) : Prop where
  key : e.1 = .str (str f.key)
  value : Denotes py e.2 f.value

/-! ### One member -/

section
variable {py : Interpreter} {finiteOnly : Bool}

/-- In front of a comma or a brace the value is read from `w`, with the white space around it. -/
def ValueAt (py : Interpreter) (finiteOnly : Bool) (w : Str) (v : Value) : Prop :=
  ∀ (c : CodePoint) (rest : Str) (fuel : Nat), c ∈ [ch ',', ch '\x7d'] → w.length < fuel →
    ∃ r, scanValue py finiteOnly fuel (py.recursionLimit - 1) (skipSpace (w ++ c :: rest)) =
      .ok (v, r) ∧ skipSpace r = c :: rest

theorem next_closes {c : CodePoint} (hc : c ∈ [ch ',', ch '\x7d']) (rest : Str) :
    Closes (c :: rest) ∧ skipSpace (c :: rest) = c :: rest := by
  simp only [List.mem_cons, List.not_mem_nil, or_false] at hc
  rcases hc with rfl | rfl
  · exact ⟨by simp [Closes], skipSpace_cons _ (by decide)⟩
  · exact ⟨by simp [Closes], skipSpace_cons _ (by decide)⟩

/-- What the encoder writes. -/
theorem valueAt_dumped {w : Str} {v : Value} (hw : dumpValue true (py.recursionLimit - 1) v = .ok w)
    (hv : v.IsJson py) (hfinite : v.finite = true) : ValueAt py finiteOnly w v := by
  intro c rest fuel hc hfuel
  obtain ⟨hcloses, hskip⟩ := next_closes hc rest
  refine ⟨c :: rest, ?_, hskip⟩
  rw [((dumpValue_opens hw hv).append _).skipSpace, scanValue_dump hw hv hfuel hcloses, hfinite,
    readBack_finite]

/-- What has been read alone. -/
theorem valueAt_within {s : Str} {json : Libc.Bytes} {v : Value} (hs : decodeUtf8 json = some s)
    (h : loadsWithin py finiteOnly json = .ok v) : ValueAt py finiteOnly s v := by
  rw [loadsWithin, hs] at h
  obtain ⟨⟨v', r⟩, hscan, h⟩ := bind_ok h
  dsimp only at h
  split_ifs at h with hr
  cases h
  intro c rest fuel hc hfuel
  obtain ⟨-, hskip⟩ := next_closes hc rest
  have hafter : skipSpace (r ++ c :: rest) = c :: rest := by
    unfold skipSpace at hr hskip ⊢
    rw [List.dropWhile_append, hr, hskip]
    rfl
  refine ⟨r ++ c :: rest, ?_, hafter⟩
  have hstops : Stops (r ++ c :: rest) := by
    have hmem : c ∈ [ch ',', ch ']', ch '\x7d'] := by
      simp only [List.mem_cons, List.not_mem_nil, or_false] at hc ⊢
      tauto
    simpa using stops_of_next hafter hmem []
  cases hhead : skipSpace s with
  | nil =>
    rw [hhead] at hscan
    cases hscan
  | cons b t =>
    rw [hhead] at hscan
    rw [skipSpace_append hhead, ← List.cons_append]
    exact (scan_extend _ _).1 _ _ _ _ hscan hstops _ hfuel _ le_rfl

/-- One member of an object, up to its comma or the closing brace. -/
theorem scanMembers_member {fuel : Nat} {k w : Str} {v : Value} {before : Dict} {c : CodePoint}
    (rest : Str) (hk : k.length < fuel + 1) (hw : ValueAt py finiteOnly w v)
    (hc : c ∈ [ch ',', ch '\x7d']) (hfuel : w.length < fuel) :
    scanMembers py finiteOnly (fuel + 1) (py.recursionLimit - 1) before
      (quoted k ++ ch ':' :: (w ++ c :: rest)) =
      if c = ch '\x7d' then .ok (before.set k v, rest)
      else scanMembers py finiteOnly fuel (py.recursionLimit - 1) (before.set k v)
        (skipSpace rest) := by
  obtain ⟨r, hscan, hnext⟩ := hw c rest fuel hc hfuel
  have hquoted : quoted k ++ ch ':' :: (w ++ c :: rest) =
      ch '"' :: (k.flatMap escapeChar ++ ch '"' :: ch ':' :: (w ++ c :: rest)) := by
    simp [quoted]
  rw [hquoted]
  conv_lhs => unfold scanMembers
  dsimp only
  rw [if_neg (not_not.mpr rfl), scanString_quoted hk]
  dsimp only
  rw [skipSpace_cons _ (by decide)]
  dsimp only
  rw [if_neg (not_not.mpr rfl), hscan]
  dsimp only [bind, Except.bind]
  rw [hnext]
  dsimp only
  by_cases hend : c = ch '\x7d'
  · rw [if_pos hend, if_pos hend]
    rfl
  · have hcomma : c = ch ',' := by simpa [hend] using hc
    rw [if_neg hend, if_neg hend, if_pos hcomma]

/-! ### The object -/

/-- A member as Python has decoded it. -/
structure Part where
  name : Str
  text : Str
  value : Value

def Part.member (p : Part) : Str := quoted p.name ++ ch ':' :: p.text

def Part.entry (p : Part) : Value × Value := (.str p.name, p.value)

theorem scanMembers_parts {parts : List Part} (hne : parts ≠ [])
    (hvalues : ∀ p ∈ parts, ValueAt py finiteOnly p.text p.value) {before : Dict}
    (hkeys : ((before ++ parts.map Part.entry).map Prod.fst).Nodup) (rest : Str) {fuel : Nat}
    (hfuel : (Json.commaJoin dialect (parts.map Part.member)).length < fuel) :
    scanMembers py finiteOnly fuel (py.recursionLimit - 1) before
      (Json.commaJoin dialect (parts.map Part.member) ++ ch '\x7d' :: rest) =
      .ok (before ++ parts.map Part.entry, rest) := by
  induction parts generalizing before fuel with
  | nil => exact absurd rfl hne
  | cons p parts ih =>
    obtain ⟨fuel, rfl⟩ : ∃ n, fuel = n + 1 := ⟨fuel - 1, by omega⟩
    rw [List.forall_mem_cons] at hvalues
    have hset : before.set p.name p.value = before ++ [p.entry] :=
      set_new (not_mem_before hkeys)
    have hname := length_le_quoted p.name
    cases parts with
    | nil =>
      have hlen : (quoted p.name).length + (p.text.length + 1) < fuel + 1 := by
        simpa [Json.commaJoin, Part.member] using hfuel
      show scanMembers _ _ _ _ _ (p.member ++ ch '\x7d' :: rest) = _
      rw [Part.member, List.append_assoc, List.cons_append,
        scanMembers_member rest (by omega) hvalues.1 (by simp) (by omega), if_pos rfl, hset]
      rfl
    | cons q parts =>
      have hlen : (quoted p.name).length + (p.text.length + 1) +
          ((Json.commaJoin dialect ((q :: parts).map Part.member)).length + 1) < fuel + 1 := by
        have hmember : p.member.length = (quoted p.name).length + (p.text.length + 1) := by
          simp [Part.member]
        rw [List.map_cons, Json.commaJoin_cons _ (by simp), List.length_append,
          List.length_cons] at hfuel
        omega
      have hcomma : ch ',' ≠ ch '\x7d' := by decide
      have hkeys' : ((before ++ [p.entry] ++ (q :: parts).map Part.entry).map Prod.fst).Nodup := by
        simpa using hkeys
      have hshort : (Json.commaJoin dialect ((q :: parts).map Part.member)).length < fuel := by
        omega
      have hrest := ih (by simp) hvalues.2 hkeys' hshort
      have hopens : skipSpace (Json.commaJoin dialect ((q :: parts).map Part.member) ++
          ch '\x7d' :: rest) = Json.commaJoin dialect ((q :: parts).map Part.member) ++
            ch '\x7d' :: rest := by
        obtain ⟨more, hmore⟩ := Json.commaJoin_first (G := dialect) q.member
          (parts.map Part.member)
        rw [List.map_cons, hmore, Part.member, quoted]
        exact skipSpace_cons _ (by decide)
      rw [List.map_cons, Json.commaJoin_cons _ (by simp), List.append_assoc, List.cons_append,
        Part.member, List.append_assoc, List.cons_append, dialect_ch,
        scanMembers_member _ (by omega) hvalues.1 (by simp) (by omega), if_neg hcomma, hset, hopens,
        hrest]
      simp

/-- An object made of these members, as the bytes of its UTF-8 form. -/
theorem loads_parts {parts : List Part} (hne : parts ≠ [])
    (hvalues : ∀ p ∈ parts, ValueAt py finiteOnly p.text p.value)
    (hkeys : (parts.map Part.name).Nodup) {data : Bytes}
    (hdata : encodeUtf8 (ch '\x7b' :: (Json.commaJoin dialect (parts.map Part.member) ++
      [ch '\x7d'])) = some data) :
    loads py finiteOnly data = .ok (.dict (parts.map Part.entry)) := by
  obtain ⟨depth, hdepth⟩ : ∃ depth, py.recursionLimit = depth + 1 :=
    ⟨py.recursionLimit - 1, by have := py.recursionLimit_pos; omega⟩
  have hfirst : ∃ t, Json.commaJoin dialect (parts.map Part.member) ++ [ch '\x7d'] =
      ch '"' :: t := by
    obtain ⟨p, parts, rfl⟩ := List.exists_cons_of_ne_nil hne
    obtain ⟨more, hmore⟩ := Json.commaJoin_first (G := dialect) p.member (parts.map Part.member)
    rw [List.map_cons, hmore, Part.member, quoted]
    exact ⟨_, rfl⟩
  obtain ⟨t, ht⟩ := hfirst
  have hnames : (([] ++ parts.map Part.entry).map Prod.fst).Nodup := by
    have hinj : Function.Injective Value.str := fun _ _ h => Value.str.inj h
    simpa [Part.entry, Function.comp_def] using hkeys.map hinj
  have hfuel : (ch '\x7b' :: (Json.commaJoin dialect (parts.map Part.member) ++
      [ch '\x7d'])).length = (Json.commaJoin dialect (parts.map Part.member)).length + 1 + 1 := by
    simp
  have hlimit : depth = py.recursionLimit - 1 := by omega
  have hmore : scanMembers py finiteOnly
      ((Json.commaJoin dialect (parts.map Part.member)).length + 1 + 1) depth []
      (Json.commaJoin dialect (parts.map Part.member) ++ [ch '\x7d']) =
        .ok (parts.map Part.entry, []) := by
    rw [hlimit]
    exact scanMembers_parts hne hvalues hnames [] (by omega)
  have hbom : (ch '\x7b' :: ch '"' :: t).head? ≠ some (.ofNat 0xFEFF) := fun h =>
    absurd (Option.some.inj h) (by decide)
  rw [loads, decode_of_encode hdata]
  show loadsText py finiteOnly _ = _
  rw [loadsText, hfuel, ht, if_neg hbom, skipSpace_cons _ (by decide), hdepth, scanValue_object,
    ← ht, hmore]
  rfl

end

/-! ### The fields of a request -/

theorem encode_of_encodable {s : Str} (h : Encodable s) : encodeUtf8 s = some (utf8 s) :=
  encodable_iff.mp h

theorem encodable_of_encode {s : Str} {b : Bytes} (h : encodeUtf8 s = some b) : Encodable s := by
  rw [encodable_iff, utf8_of_encode h, h]

theorem encodable_quoted {s : Str} (h : Encodable s) : Encodable (quoted s) := by
  intro c hc
  rw [quoted, List.cons_append, List.mem_cons, List.mem_append, List.mem_singleton] at hc
  rcases hc with rfl | hc | rfl
  · exact isSurrogate_ch _
  · obtain ⟨x, hx, hc⟩ := List.mem_flatMap.mp hc
    have hescaped := encodable_escapeChar x
    rw [h x hx] at hescaped
    simpa using List.all_eq_true.mp hescaped c hc
  · exact isSurrogate_ch _

theorem encode_member {key : String} (hk : plainKey key = true) {w : Str} {b : Bytes}
    (hw : encodeUtf8 w = some b) : encodeUtf8 (quoted (str key) ++ ch ':' :: w) =
      some (Libc.chr '"' :: (Libc.text key ++ Libc.chr '"' :: Libc.chr ':' :: b)) := by
  obtain ⟨hascii, hplain⟩ := Bool.and_eq_true_iff.mp hk
  have hkey : encodeUtf8 (quoted (str key)) = some (utf8 (quoted (str key))) :=
    encode_of_encodable (encodable_quoted (encodable_map_ch (ascii_of_all hascii)))
  have hcolon : encodeUtf8 [ch ':'] = some [Libc.chr ':'] := by decide
  have hall := encodeUtf8_append hkey (encodeUtf8_append hcolon hw)
  rw [utf8_quoted_key (ascii_of_all hascii) fun b hb =>
    of_decide_eq_true (List.all_eq_true.mp hplain b hb)] at hall
  simpa using hall

section
variable {py : Interpreter}

/-- The value of a field is read from its text. -/
theorem Denotes.text {v : Value} {f : Mipc.FieldValue} (h : Denotes py v f) :
    ∃ w, encodeUtf8 w = some f.text ∧ ∀ finiteOnly, ValueAt py finiteOnly w v := by
  cases f with
  | string s =>
    obtain ⟨u, hu, rfl⟩ := h
    have hencode := encode_of_decode hu
    have hquoted := encode_of_encodable (encodable_quoted (encodable_of_encode hencode))
    rw [utf8_quoted, utf8_of_encode hencode] at hquoted
    exact ⟨_, hquoted, fun _ => valueAt_dumped (by rw [dumpValue]) trivial rfl⟩
  | integer n =>
    obtain rfl := h
    have hrange : InRange (n.toNat : Int) := ⟨by omega, by have := n.toNat_lt; omega⟩
    have hshort : (n.toNat : Int).natAbs < 10 ^ intMaxStrDigits :=
      lt_of_lt_of_le n.toNat_lt (le_trans (by decide : 2 ^ 64 ≤ 10 ^ 20)
        (Nat.pow_le_pow_right (by decide) (by decide)))
    obtain ⟨w, hw, -⟩ := intRepr_short hshort
    have hback : toU64 (n.toNat : Int) = n := by simp [toU64]
    have hbytes := utf8_intRepr hrange hw
    rw [hback] at hbytes
    have hencodable : Encodable w := fun c hc => by
      simpa using List.all_eq_true.mp (encodable_intRepr hw) c hc
    refine ⟨w, ?_, fun _ => valueAt_dumped (by rw [dumpValue, hw]) trivial rfl⟩
    rw [encode_of_encodable hencodable, hbytes, Mipc.FieldValue.text]
  | raw json =>
    cases hs : decodeUtf8 json with
    | none =>
      have hnone := h true
      rw [loadsWithin, hs] at hnone
      cases hnone
    | some s => exact ⟨s, encode_of_decode hs, fun finiteOnly => valueAt_within hs (h finiteOnly)⟩

/-- The fields as members that Python decodes. -/
theorem exists_parts {fields : List Mipc.Field} {d : Dict}
    (h : List.Forall₂ (FieldDenotes py) fields d) (hkeys : ∀ f ∈ fields, plainKey f.key = true) :
    ∃ parts : List Part, parts.map Part.entry = d ∧
      parts.map Part.name = fields.map (fun f => str f.key) ∧
      (∀ p ∈ parts, ∀ finiteOnly, ValueAt py finiteOnly p.text p.value) ∧
      encodeUtf8 (Json.commaJoin dialect (parts.map Part.member)) =
        some (Json.commaJoin Mipc.dialect (fields.map Mipc.Field.text)) := by
  induction h with
  | nil => exact ⟨[], rfl, rfl, by simp, rfl⟩
  | @cons f e fields d hfe hrest ih =>
    rw [List.forall_mem_cons] at hkeys
    obtain ⟨parts, rfl, hnames, hvalues, hencode⟩ := ih hkeys.2
    obtain ⟨w, hw, hvalue⟩ := hfe.value.text
    have hmember : encodeUtf8 (quoted (str f.key) ++ ch ':' :: w) = some f.text :=
      encode_member hkeys.1 hw
    refine ⟨⟨str f.key, w, e.2⟩ :: parts, ?_, ?_, List.forall_mem_cons.mpr ⟨hvalue, hvalues⟩, ?_⟩
    · rw [List.map_cons, Part.entry, ← hfe.key]
    · rw [List.map_cons, List.map_cons, hnames]
    · cases parts with
      | nil =>
        cases fields with
        | nil => exact hmember
        | cons g fields => cases hnames
      | cons p parts =>
        cases fields with
        | nil => cases hnames
        | cons g fields =>
          have hcomma : encodeUtf8 [ch ','] = some [Libc.chr ','] := by decide
          have hall := encodeUtf8_append hmember (encodeUtf8_append hcomma hencode)
          exact hall

/-- A record of such fields is read as the dict. -/
theorem loads_record {fields : List Mipc.Field} {d : Dict}
    (h : List.Forall₂ (FieldDenotes py) fields d) (hne : fields ≠ [])
    (hplain : ∀ f ∈ fields, plainKey f.key = true)
    (hkeys : (fields.map fun f => Libc.text f.key).Nodup) (finiteOnly : Bool) :
    loads py finiteOnly (Mipc.recordText fields) = .ok (.dict d) := by
  obtain ⟨parts, rfl, hnames, hvalues, hencode⟩ := exists_parts h hplain
  have hparts : parts ≠ [] := by
    rintro rfl
    cases fields with
    | nil => exact hne rfl
    | cons f fields => cases hnames
  have hnodup : (parts.map Part.name).Nodup := by
    refine List.Nodup.of_map utf8 ?_
    rw [hnames, List.map_map]
    convert hkeys using 1
    refine List.map_congr_left fun f hf => ?_
    exact utf8_str (ascii_of_all (Bool.and_eq_true_iff.mp (hplain f hf)).1)
  refine loads_parts hparts (fun p hp => hvalues p hp finiteOnly) hnodup ?_
  have hopen : encodeUtf8 [ch '\x7b'] = some [Libc.chr '\x7b'] := by decide
  have hclose : encodeUtf8 [ch '\x7d'] = some [Libc.chr '\x7d'] := by decide
  exact encodeUtf8_append hopen (encodeUtf8_append hencode hclose)

theorem plain_fields (q : Mipc.Request) : ∀ f ∈ q.fields, plainKey f.key = true := by
  have hall : ∀ keys ∈ Mipc.recordKeys, ∀ key ∈ keys, plainKey key = true := by decide +kernel
  have hmem : q.fields.map Mipc.Field.key ∈ Mipc.recordKeys := by
    cases q <;> simp [Mipc.Request.fields, Mipc.recordKeys]
  exact fun f hf => hall _ hmem _ (List.mem_map_of_mem hf)

/-- Whatever a C sender has put on the socket, every Python endpoint reads the arguments from. -/
theorem read_by_python (py : Interpreter) (q : Mipc.Request) {d : Dict}
    (hd : List.Forall₂ (FieldDenotes py) q.fields d) (sys : Mipc.System)
    (client : Option Mipc.Client) {reply : Mipc.SendReply} (h : q.send sys client = some reply)
    (hok : reply.result = .ok) :
    ∃ record, reply.record = some record ∧ Accepted py record d := by
  obtain ⟨⟨hrecord, hlen⟩, -⟩ := q.transmitted h hok
  obtain ⟨hkeys, -, -⟩ := Mipc.fields_of_wellNamed q.wellNamed
  have hne : q.fields ≠ [] := by cases q <;> simp [Mipc.Request.fields]
  have hread := loads_record hd hne (plain_fields q) hkeys
  refine ⟨_, hrecord, accepted_of_loads ?_ hlen (hread false) (hread true)⟩
  exact List.cons_ne_nil _ _

/-- The event `a` with the payload ` {"b": 1}`. -/
theorem read_by_python_event :
    Accepted plain (bytes
        "\x7b\"type\":\"event\",\"topic\":\"a\",\"payload\": \x7b\"b\": 1\x7d\x7d")
      [(.str (str "type"), .str (str "event")), (.str (str "topic"), .str (str "a")),
        (.str (str "payload"), .dict [(.str (str "b"), .int 1)])] := by
  have hd : List.Forall₂ (FieldDenotes plain)
      (Mipc.Request.event (Libc.text "a") (Libc.text " \x7b\"b\": 1\x7d")).fields
      [(.str (str "type"), .str (str "event")), (.str (str "topic"), .str (str "a")),
        (.str (str "payload"), .dict [(.str (str "b"), .int 1)])] :=
    .cons ⟨rfl, _, by decide +kernel, rfl⟩ (.cons ⟨rfl, _, by decide +kernel, rfl⟩
      (.cons ⟨rfl, fun finiteOnly => by cases finiteOnly <;> decide +kernel⟩ .nil))
  obtain ⟨record, hrecord, haccepted⟩ := read_by_python plain _ hd
    ⟨fun _ => true, fun _ => true, [.bytes 48]⟩ (some ⟨3, 0⟩) rfl rfl
  cases hrecord
  exact haccepted

end

end Msys.Wire
