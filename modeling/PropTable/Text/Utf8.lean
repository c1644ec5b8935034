import PropTable.Text.Quoted

/-!
# Reading UTF-8

`Utf8.decode` turns bytes into characters or says where and why they are no UTF-8. Overlong forms,
surrogates and code points above `10FFFF` are refused at their second byte, which is the first one
that no valid form shares with them.
-/

namespace PropTable.Text.Utf8

/-- Why bytes are no UTF-8. -/
inductive Flaw where
  | invalidStart
  | invalidContinuation
  | unexpectedEnd
deriving DecidableEq, Repr

/-- The first bytes that cannot be read: `length` of them from `position` on, the first of which is
`byte`. -/
structure Malformation where
  flaw : Flaw
  position : Nat
  length : Nat
  byte : UInt8
deriving DecidableEq, Repr

def Flaw.text : Flaw → String
  | .invalidStart => "invalid start byte"
  | .invalidContinuation => "invalid continuation byte"
  | .unexpectedEnd => "unexpected end of data"

/-- The text shown for bytes that cannot be read. -/
def Malformation.message (m : Malformation) : String :=
  let place :=
    if m.length = 1 then
      "byte 0x" ++ String.ofList (hexDigits 2 m.byte.toNat) ++ " in position " ++
        toString m.position
    else
      "bytes in position " ++ toString m.position ++ "-" ++ toString (m.position + m.length - 1)
  "'utf-8' codec can't decode " ++ place ++ ": " ++ m.flaw.text

/-- The least second byte that may follow a first byte. -/
def leastSecond (first : UInt8) : UInt8 :=
  if first = 0xe0 then 0xa0 else if first = 0xf0 then 0x90 else 0x80

/-- The greatest second byte that may follow a first byte. -/
def greatestSecond (first : UInt8) : UInt8 :=
  if first = 0xed then 0x9f else if first = 0xf4 then 0x8f else 0xbf

/-- Whether `second` may follow `first`. -/
def isSecond (first second : UInt8) : Bool :=
  leastSecond first ≤ second && second ≤ greatestSecond first

/-- Whether a byte may stand at the third or fourth place of a form. -/
def isContinuation (b : UInt8) : Bool :=
  0x80 ≤ b && b ≤ 0xbf

/-- The six bits that a continuation byte adds to a code point. -/
def payload (b : UInt8) : Nat :=
  b.toNat % 0x40

/-- Decodes the bytes from `position` on; `before` holds the characters already read, last one
first. -/
def decodeFrom (position : Nat) (before : List Char) :
    List UInt8 → Except Malformation (List Char)
  | [] => .ok before.reverse
  | a :: bs =>
    if a < 0x80 then decodeFrom (position + 1) (Char.ofNat a.toNat :: before) bs
    else if a < 0xc2 || 0xf4 < a then .error ⟨.invalidStart, position, 1, a⟩
    else
      match bs with
      | [] => .error ⟨.unexpectedEnd, position, 1, a⟩
      | b :: cs =>
        if !isSecond a b then .error ⟨.invalidContinuation, position, 1, a⟩
        else if a < 0xe0 then
          decodeFrom (position + 2)
            (Char.ofNat (a.toNat % 0x20 * 0x40 + payload b) :: before) cs
        else
          match cs with
          | [] => .error ⟨.unexpectedEnd, position, 2, a⟩
          | c :: ds =>
            if !isContinuation c then .error ⟨.invalidContinuation, position, 2, a⟩
            else if a < 0xf0 then
              decodeFrom (position + 3)
                (Char.ofNat ((a.toNat % 0x10 * 0x40 + payload b) * 0x40 + payload c) :: before) ds
            else
              match ds with
              | [] => .error ⟨.unexpectedEnd, position, 3, a⟩
              | d :: es =>
                if !isContinuation d then .error ⟨.invalidContinuation, position, 3, a⟩
                else
                  decodeFrom (position + 4)
                    (Char.ofNat
                      (((a.toNat % 0x08 * 0x40 + payload b) * 0x40 + payload c) * 0x40 +
                        payload d) :: before) es

/-- The characters that the bytes encode. -/
def decode (bytes : List UInt8) : Except Malformation (List Char) :=
  decodeFrom 0 [] bytes

end PropTable.Text.Utf8
