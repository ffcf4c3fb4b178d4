import SqlGateway.Text.Basic

/-!
# Paths

The path of a request ends before a question mark or a number sign.  A percent sign with two
hexadecimal digits stands for a byte; the bytes are read as UTF-8, and the parts of the path lie
between slashes.
-/

namespace SqlGateway.Http.Path

def hexValue? (b : UInt8) : Option Nat :=
  let n := b.toNat
  if 0x30 ≤ n && n ≤ 0x39 then some (n - 0x30)
  else if 0x41 ≤ n && n ≤ 0x46 then some (n - 0x41 + 10)
  else if 0x61 ≤ n && n ≤ 0x66 then some (n - 0x61 + 10)
  else none

def byte? (high low : UInt8) : Option UInt8 := do
  return UInt8.ofNat (16 * (← hexValue? high) + (← hexValue? low))

/-- The bytes that a text stands for.  A percent sign without two digits stands for itself. -/
def decode : List UInt8 → List UInt8
  | [] => []
  | b :: high :: low :: rest =>
    if b == 0x25 then
      match byte? high low with
      | some byte => byte :: decode rest
      | none => b :: decode (high :: low :: rest)
    else b :: decode (high :: low :: rest)
  | b :: rest => b :: decode rest

/-- The text of a path.  One without a percent sign is left as it is, and so is one that is no UTF-8 once
decoded. -/
def read (path : String) : List Char :=
  let bare := path.toList.takeWhile fun c => c != '?' && c != '#'
  if bare.contains '%' then
    match String.fromUTF8? ⟨(decode (String.ofList bare).toUTF8.toList).toArray⟩ with
    | some s => s.toList
    | none => bare
  else bare

/-- The parts of a path, none of which is empty. -/
def parts? (path : String) : Option (List String) :=
  match Text.splitAtChar '/' (read path) with
  | [] :: parts => if parts.contains [] then none else some (parts.map String.ofList)
  | _ => none

end SqlGateway.Http.Path
