import ClientForge.Proofs.PathExpression

/-!
# Arguments in a path

The address of a request is a path in which every parameter is replaced by an encoded argument. By
the rules for paths a percent sign and two hexadecimal digits stand for one octet and every other
character for itself, a plus sign too. One language encodes an argument for a component of an
address: the octets of its text are percent-encoded, but for letters, digits and some marks. The
other encodes the octets of a string as a form does, and writes a space as a plus sign. So what a
path says about an argument is the argument itself in the one language, and in the other it is the
argument with a plus sign for each space. No encoded argument holds a character that ends a segment
of a path or the path.
-/

namespace ClientForge

open ClientForge.Text

namespace Text.Percent

variable {c : Char} {cs rest : List Char} {bs : List UInt8}

/-- The octets of a text. -/
def octets (s : String) : List UInt8 := s.toList.flatMap String.utf8EncodeChar

/-- A hexadecimal digit, a capital beyond nine. -/
def digit (n : Nat) : Char := if n < 10 then Char.ofNat (48 + n) else Char.ofNat (55 + n)

/-- An octet in percent-encoding. -/
def escape (b : UInt8) : List Char := ['%', digit (b.toNat / 16), digit (b.toNat % 16)]

/-- The octets that a part of a path stands for; none if a percent sign has not two digits behind
it. -/
def decode? : List Char → Option (List UInt8)
  | [] => some []
  | '%' :: high :: low :: rest =>
    match hexValue? high, hexValue? low with
    | some h, some l => (decode? rest).map (UInt8.ofNat (16 * h + l) :: ·)
    | _, _ => none
  | c :: rest => if c = '%' then none else (decode? rest).map (String.utf8EncodeChar c ++ ·)

/-- Whether a character is kept in a component of an address: a letter, a digit or a mark. -/
def isUnreserved (c : Char) : Bool :=
  isWordChar c || ['-', '_', '.', '!', '~', '*', '\x27', '(', ')'].contains c

/-- A text as a component of an address. -/
def component (s : String) : List Char :=
  s.toList.flatMap fun c =>
    if isUnreserved c then [c] else (String.utf8EncodeChar c).flatMap escape

/-- Whether a character is kept in a form: a letter, a digit or a mark. -/
def isKeptInForm (c : Char) : Bool := isWordChar c || ['-', '_', '.'].contains c

/-- What an octet becomes in a form. -/
def formOctet (b : UInt8) : List Char :=
  if b = 0x20 then ['+']
  else if isKeptInForm (Char.ofNat b.toNat) then [Char.ofNat b.toNat]
  else escape b

/-- Octets as the value of a form. -/
def form (bs : List UInt8) : List Char := bs.flatMap formOctet

/-- An octet with a plus sign in place of a space. -/
def plusForSpace (b : UInt8) : UInt8 := if b = 0x20 then 0x2b else b

/-! ## Decoding -/

theorem hexValue?_digit {n : Nat} (h : n < 16) : hexValue? (digit n) = some n := by
  revert n
  decide

/-- An octet that was percent-encoded is read back. -/
theorem decode?_escape (b : UInt8) (rest : List Char) :
    decode? (escape b ++ rest) = (decode? rest).map (b :: ·) := by
  have bound : b.toNat < 256 := b.toNat_lt
  have high : hexValue? (digit (b.toNat / 16)) = some (b.toNat / 16) := hexValue?_digit (by omega)
  have low : hexValue? (digit (b.toNat % 16)) = some (b.toNat % 16) := hexValue?_digit (by omega)
  have whole : UInt8.ofNat (16 * (b.toNat / 16) + b.toNat % 16) = b := by
    rw [Nat.div_add_mod, UInt8.ofNat_toNat]
  rw [escape, List.cons_append, List.cons_append, List.cons_append, List.nil_append, decode?]
  simp only [high, low, whole]

/-- A character other than the percent sign stands for its octets. -/
theorem decode?_plain (plain : c ≠ '%') (rest : List Char) :
    decode? (c :: rest) = (decode? rest).map (String.utf8EncodeChar c ++ ·) := by
  rw [decode?, if_neg plain]
  exact fun _ _ _ percent _ => plain percent

theorem decode?_flatMap_escape (bs : List UInt8) (rest : List Char) :
    decode? (bs.flatMap escape ++ rest) = (decode? rest).map (bs ++ ·) := by
  induction bs with
  | nil => simp
  | cons b bs ih =>
      rw [List.flatMap_cons, List.append_assoc, decode?_escape, ih, Option.map_map]
      rfl

/-- What is encoded for a component of an address is decoded to the octets of the text. -/
theorem decode?_component (s : String) : decode? (component s) = some (octets s) := by
  have percent : isUnreserved '%' = false := by decide
  unfold component octets
  induction s.toList with
  | nil => rfl
  | cons c cs ih =>
      rw [List.flatMap_cons, List.flatMap_cons]
      by_cases kept : isUnreserved c = true
      · have plain : c ≠ '%' := by
          rintro rfl
          simp [percent] at kept
        rw [if_pos kept, List.singleton_append, decode?_plain plain, ih, Option.map_some]
      · rw [if_neg kept, decode?_flatMap_escape, ih, Option.map_some]

/-- The octet of a character that a form keeps is the character's only one. -/
theorem octet_of_isKeptInForm (b : UInt8) (kept : isKeptInForm (Char.ofNat b.toNat) = true) :
    Char.ofNat b.toNat ≠ '%' ∧ String.utf8EncodeChar (Char.ofNat b.toNat) = [b] := by
  have all : ∀ n < 256, isKeptInForm (Char.ofNat n) = true →
      Char.ofNat n ≠ '%' ∧ String.utf8EncodeChar (Char.ofNat n) = [UInt8.ofNat n] := by
    decide +kernel
  have found := all b.toNat b.toNat_lt kept
  rwa [UInt8.ofNat_toNat] at found

/-- An octet of a form is decoded to itself, a space to a plus sign. -/
theorem decode?_formOctet (b : UInt8) (rest : List Char) :
    decode? (formOctet b ++ rest) = (decode? rest).map (plusForSpace b :: ·) := by
  have plus : String.utf8EncodeChar '+' = [0x2b] := by decide +kernel
  unfold formOctet plusForSpace
  split
  next => rw [List.singleton_append, decode?_plain (by decide), plus]; rfl
  next =>
    split
    next kept =>
      obtain ⟨plain, single⟩ := octet_of_isKeptInForm b kept
      rw [List.singleton_append, decode?_plain plain, single]
      rfl
    next => exact decode?_escape b rest

theorem decode?_form (bs : List UInt8) : decode? (form bs) = some (bs.map plusForSpace) := by
  unfold form
  induction bs with
  | nil => rfl
  | cons b bs ih => rw [List.flatMap_cons, decode?_formOctet, ih, List.map_cons, Option.map_some]

theorem map_plusForSpace_eq_self_iff : bs.map plusForSpace = bs ↔ 0x20 ∉ bs := by
  have fixed (b : UInt8) : plusForSpace b = b ↔ b ≠ 0x20 := by
    unfold plusForSpace
    split
    next space =>
      rw [space]
      decide
    next other => simp [other]
  induction bs with
  | nil => simp
  | cons b bs ih =>
      rw [List.map_cons, List.cons.injEq, fixed, List.mem_cons, not_or]
      exact and_congr ne_comm ih

/-! ## What ends a segment -/

/-- The characters that end a segment of a path, or the path. -/
def delimiters : List Char := ['/', '?', '#']

theorem notMem_escape {b : UInt8} (h : c ∈ escape b) : c ∉ delimiters := by
  have digits : ∀ n < 16, digit n ∉ delimiters := by decide
  have bound : b.toNat < 256 := b.toNat_lt
  simp only [escape, List.mem_cons, List.not_mem_nil, or_false] at h
  rcases h with rfl | rfl | rfl
  · decide
  · exact digits _ (by omega)
  · exact digits _ (by omega)

theorem notMem_of_kept {p : Char → Bool} (none_ : delimiters.all (!p ·) = true)
    (kept : p c = true) : c ∉ delimiters := by
  intro h
  have other := List.all_eq_true.mp none_ c h
  simp [kept] at other

theorem notMem_component {s : String} (h : c ∈ component s) : c ∉ delimiters := by
  obtain ⟨d, -, h⟩ := List.mem_flatMap.mp h
  split at h
  next kept =>
    obtain rfl := List.mem_singleton.mp h
    exact notMem_of_kept (by decide) kept
  next =>
    obtain ⟨b, -, h⟩ := List.mem_flatMap.mp h
    exact notMem_escape h

theorem notMem_form (h : c ∈ form bs) : c ∉ delimiters := by
  obtain ⟨b, -, h⟩ := List.mem_flatMap.mp h
  unfold formOctet at h
  split at h
  next =>
    obtain rfl := List.mem_singleton.mp h
    decide
  next =>
    split at h
    next kept =>
      obtain rfl := List.mem_singleton.mp h
      exact notMem_of_kept (by decide) kept
    next => exact notMem_escape h

end Text.Percent

namespace Emission

open ClientForge.Naming

variable {l : Language}

/-- The strings that a generated method can be given: texts in one language, octets in the
other. -/
def Argument : Language → Type
  | .javascript => String
  | .php => List UInt8

namespace Argument

/-- The octets of an argument. -/
def octets : {l : Language} → Argument l → List UInt8
  | .javascript, s => Percent.octets s
  | .php, bs => bs

/-- An argument as the expression of a path encodes it. -/
def encoded : {l : Language} → Argument l → List Char
  | .javascript, s => Percent.component s
  | .php, bs => Percent.form bs

/-- What a path says about an argument: its octets, in one language with a plus sign for each
space. -/
def received : {l : Language} → Argument l → List UInt8
  | .javascript, s => Percent.octets s
  | .php, bs => bs.map Percent.plusForSpace

theorem decode?_encoded (arg : Argument l) : Percent.decode? arg.encoded = some arg.received := by
  cases l with
  | javascript => exact Percent.decode?_component arg
  | php => exact Percent.decode?_form arg

theorem received_eq_octets_iff (arg : Argument l) :
    arg.received = arg.octets ↔ l = .javascript ∨ 0x20 ∉ arg.octets := by
  cases l with
  | javascript => exact iff_of_true rfl (.inl rfl)
  | php =>
      have same := @Percent.map_plusForSpace_eq_self_iff arg
      exact same.trans (by simp [octets])

theorem notMem_encoded {arg : Argument l} {c : Char} (h : c ∈ arg.encoded) :
    c ∉ Percent.delimiters := by
  cases l with
  | javascript => exact Percent.notMem_component h
  | php => exact Percent.notMem_form h

end Argument

/-- The text of an expression whose calls encode arguments. -/
def PathExpr.address? (arguments : String → Argument l) (e : PathExpr) : Option (List Char) :=
  e.value? id fun v => String.ofList (arguments v).encoded

/-- The expression of a path puts encoded arguments in the places of the parameters. None of them
holds a character that ends a segment, and by the rules for paths each is decoded to the argument
itself, unless the language encodes as a form does and the argument holds a space. -/
theorem arguments_decode_iff (a : Action) (arguments : String → Argument l) :
    ∃ e out, PathExpr.read l (pathExpr l (pathParts l a.path)).source.toList = some e ∧
      e.address? arguments = some out ∧
      Filled (fun name => (arguments (variableName l (String.ofList name))).encoded)
        (relativePath a.path) out ∧
      (∀ index m, actionView l index a = .ok m → m.pathExpr = pathExpr l (pathParts l a.path)) ∧
      ∀ name ∈ a.pathParameters,
        let arg := arguments (variableName l name)
        (∀ c ∈ arg.encoded, c ≠ '/' ∧ c ≠ '?' ∧ c ≠ '#') ∧
        (Percent.decode? arg.encoded = some arg.octets ↔ l = .javascript ∨ 0x20 ∉ arg.octets) := by
  refine ⟨_, _, read_source_pathExpr l a.path, value?_pathExpr _ _ _ l, ?_, ?_, ?_⟩
  · rw [flatMap_value_pathParts, filled_iff]
    simp only [id, String.toList_ofList]
  · intro index m viewed
    exact (pathExpr_of_actionView viewed).1
  · intro name _
    refine ⟨fun c hc => ?_, ?_⟩
    · have other := Argument.notMem_encoded hc
      simpa [Percent.delimiters] using other
    · rw [Argument.decode?_encoded, Option.some_inj, Argument.received_eq_octets_iff]

/-- An argument with a space is sent with a plus sign, which the path means literally. -/
theorem space_read_as_plus :
    (pathExpr .php (pathParts .php "/users/\x7bname\x7d")).source =
      "sprintf('users/%s', urlencode($name))" ∧
    PathExpr.address? (l := .php) (fun _ => Percent.octets "a b")
      (pathExpr .php (pathParts .php "/users/\x7bname\x7d")) = some "users/a+b".toList ∧
    Percent.decode? (Percent.form (Percent.octets "a b")) = some (Percent.octets "a+b") ∧
    Percent.decode? (Percent.component "a b") = some (Percent.octets "a b") := by
  decide +kernel

end Emission

end ClientForge
