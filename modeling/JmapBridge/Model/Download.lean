import JmapBridge.Model.Types
import JmapBridge.Rust.Replace
import JmapBridge.Rust.Utf8

/-! The URL an attachment is downloaded from: the values of the attachment in the download
URL template of the session. -/

namespace JmapBridge.Download

open Rust Rust.Str

/-- `URL_TEMPLATE_VALUE`: the ASCII bytes that are escaped. -/
def urlTemplateValue (b : UInt8) : Bool :=
  b < 0x20 || b == 0x7F || (" \"#%/<>?\\^`\x7b|\x7d".toList.any fun c => c.toUInt8 == b)

def hexDigit (n : Nat) : Char := (Nat.digitChar n).toUpper

def percentByte (b : UInt8) : Str := ['%', hexDigit (b.toNat / 16), hexDigit (b.toNat % 16)]

/-- `utf8_percent_encode`, which escapes every byte that is not ASCII. -/
def utf8PercentEncode (set : UInt8 → Bool) (s : Str) : Str :=
  (bytes s).flatMap fun b =>
    if 128 ≤ b || set b then percentByte b else [Char.ofNat b.toNat]

def enc (s : Str) : Str := utf8PercentEncode urlTemplateValue s

def downloadUrl (downloadTemplate accountId blobId fileName : Str) : Str :=
  let url := replace "{accountId}".toList (enc accountId) downloadTemplate
  let url := replace "{blobId}".toList (enc blobId) url
  replace "{name}".toList (enc fileName) url

/-- The URL that `bridge_attachment` requests, where the part has a blob. -/
def attachmentUrl (downloadTemplate accountId : Str) (part : EmailBodyPart) : Option Str :=
  part.blobId.map fun blobId =>
    downloadUrl downloadTemplate accountId blobId.toList (part.name.getD "📎 attachment").toList

end JmapBridge.Download
