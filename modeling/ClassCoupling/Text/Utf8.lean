/-!
Standard UTF-8 over lists of bytes. `step` takes one character, or the longest
run of bytes that starts a character and cannot be continued. `decode?` accepts
well-formed text only; `decodeLossy` puts U+FFFD in the place of each such run.
-/
namespace ClassCoupling.Utf8

inductive Step where
  | scalar (char : Char) (rest : List UInt8)
  | malformed (rest : List UInt8)

def replacement : Char := '\uFFFD'

def isContinuation (byte : UInt8) : Bool := byte &&& 0xC0 == 0x80

def payload (byte : UInt8) : Nat := (byte &&& 0x3F).toNat

/-- The smallest second byte that keeps the code point in the shortest form. -/
def secondLow (lead : UInt8) : UInt8 :=
  if lead == 0xE0 then 0xA0 else if lead == 0xF0 then 0x90 else 0x80

/-- The largest second byte that keeps the code point off the surrogates and in range. -/
def secondHigh (lead : UInt8) : UInt8 :=
  if lead == 0xED then 0x9F else if lead == 0xF4 then 0x8F else 0xBF

def isSecond (lead byte : UInt8) : Bool := secondLow lead ≤ byte && byte ≤ secondHigh lead

def step (lead : UInt8) (rest : List UInt8) : Step :=
  if lead < 0x80 then .scalar (Char.ofNat lead.toNat) rest
  else if 0xC2 ≤ lead && lead ≤ 0xDF then
    match rest with
    | second :: after =>
        if isContinuation second then
          .scalar (Char.ofNat ((lead &&& 0x1F).toNat * 64 + payload second)) after
        else .malformed rest
    | [] => .malformed rest
  else if 0xE0 ≤ lead && lead ≤ 0xEF then
    match rest with
    | second :: third :: after =>
        if !isSecond lead second then .malformed rest
        else if isContinuation third then
          .scalar (Char.ofNat
            (((lead &&& 0x0F).toNat * 64 + payload second) * 64 + payload third)) after
        else .malformed (third :: after)
    | [second] => if isSecond lead second then .malformed [] else .malformed rest
    | [] => .malformed rest
  else if 0xF0 ≤ lead && lead ≤ 0xF4 then
    match rest with
    | second :: third :: fourth :: after =>
        if !isSecond lead second then .malformed rest
        else if !isContinuation third then .malformed (third :: fourth :: after)
        else if isContinuation fourth then
          .scalar (Char.ofNat
            ((((lead &&& 0x07).toNat * 64 + payload second) * 64 + payload third) * 64 +
              payload fourth)) after
        else .malformed (fourth :: after)
    | [second, third] =>
        if !isSecond lead second then .malformed rest
        else if isContinuation third then .malformed []
        else .malformed [third]
    | [second] => if isSecond lead second then .malformed [] else .malformed rest
    | [] => .malformed rest
  else .malformed rest

def Step.rest : Step → List UInt8
  | scalar _ rest => rest
  | malformed rest => rest

theorem step_rest_length_le (lead : UInt8) (rest : List UInt8) :
    (step lead rest).rest.length ≤ rest.length := by
  unfold step
  repeat' split
  all_goals simp [Step.rest] <;> omega

def decodeAfter? (found : List Char) : List UInt8 → Option (List Char)
  | [] => some found.reverse
  | lead :: rest =>
      match _next : step lead rest with
      | .scalar char after => decodeAfter? (char :: found) after
      | .malformed _ => none
termination_by bytes => bytes.length
decreasing_by
  have bound := step_rest_length_le lead rest
  simp only [_next, Step.rest] at bound
  simp only [List.length_cons]
  omega

def decode? (bytes : List UInt8) : Option String :=
  (decodeAfter? [] bytes).map String.ofList

def decodeLossyAfter (found : List Char) : List UInt8 → List Char
  | [] => found.reverse
  | lead :: rest =>
      match _next : step lead rest with
      | .scalar char after => decodeLossyAfter (char :: found) after
      | .malformed after => decodeLossyAfter (replacement :: found) after
termination_by bytes => bytes.length
decreasing_by
  all_goals
    have bound := step_rest_length_le lead rest
    simp only [_next, Step.rest] at bound
    simp only [List.length_cons]
    omega

def decodeLossy (bytes : List UInt8) : String :=
  String.ofList (decodeLossyAfter [] bytes)

def encode (text : String) : List UInt8 := text.toUTF8.data.toList

end ClassCoupling.Utf8
