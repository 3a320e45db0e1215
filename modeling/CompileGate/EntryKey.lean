/-
CompileGate/EntryKey.lean

The key of the entry source: the file name that the caller gave, reduced to the
letters, digits and marks that are safe everywhere, or a name made from the
digest of the source, so that one source always has one name.
-/
import CompileGate.Hash.Sha256
import CompileGate.Text.Utf8

namespace CompileGate
namespace EntryKey

/-- A code point that is safe in a file name. -/
def isSafe (c : CodePoint) : Bool :=
  c.isAsciiLetter || c.isAsciiDigit || c = '_' || c = '.' || c = '-'

/-- The safe code points of a name. -/
def sanitize (name : Text) : Text := name.filter isSafe

/-- The digest of a text's bytes. -/
def digest (t : Text) : Except Utf8.EncodeError Text :=
  (Utf8.encode t).map Sha256.hexDigest

/-- The name of a source that came without a usable one. -/
def ofSource (source : Text) : Except Utf8.EncodeError Text :=
  (digest source).map fun d => "Contract_" ++ d.take 8 ++ ".sol"

/-- The key of an entry source: its sanitised name, or one made from the source. -/
def choose (name : Option Text) (source : Text) : Except Utf8.EncodeError Text :=
  let safe := sanitize (name.getD [])
  if safe.isEmpty then ofSource source else .ok safe

end EntryKey

end CompileGate
