import Mathlib.Data.List.DropRight
import InferenceEngine.Lib.Percent
import InferenceEngine.Lib.PySub
import InferenceEngine.Lib.PyStr

/-!
# Models.Redaction

`redact_urls_in_text`: three patterns rewrite an error text one after the other. Userinfo is taken
out, URLs are read and written again without credentials, and query parameters of a sensitive name
get `***` for a value. The value of another parameter is decoded and searched for a credential of
its own, one level deep.
-/

namespace InferenceEngine
namespace Redaction

/-- What `urllib.parse` and `str.lower` take from the tables of Unicode: letters in lower case, and
which host a URL may not have. -/
structure Unicode where
  lower : List Char → List Char
  rejects : List Char → Bool
  lower_nil : lower [] = []
  rejects_nil : rejects [] = false
  lower_split : ∀ a b, lower (a ++ '?' :: b) = lower a ++ '?' :: lower b
  lower_mem : ∀ c ∈ ['?', '&', '#'], ∀ cs, c ∈ lower cs → c ∈ cs

variable (u : Unicode)

def mask : List Char := ['*', '*', '*']

/-- `_SENSITIVE_QUERY_HINTS`. -/
def hints : List (List Char) :=
  ["token", "key", "secret", "sig", "auth", "password", "credential"].map String.toList

/-- `_is_sensitive`. -/
def isSensitive (name : List Char) : Bool := hints.any fun h => decide (h <:+: u.lower name)

/-- `_is_sensitive_raw`. -/
def isSensitiveRaw (rawName : List Char) : Bool := isSensitive u (Percent.unquotePlus rawName)

section Patterns

/-- `[^/?#\s]`. -/
def userinfoChar (c : Char) : Bool := !(c ∈ ['/', '?', '#'] || Py.isSpace c)

/-- `_USERINFO`, to be taken out: after `://`, up to the last `@` before the path. -/
def userinfo : Py.Pattern Char := fun before cs =>
  let run := (cs.takeWhile userinfoChar).rdropWhile (· ≠ '@')
  if before.take 3 = ['/', '/', ':'] ∧ run ≠ [] then some (run.length, []) else none

def isLetter (c : Char) : Bool := ('a' ≤ c && c ≤ 'z') || ('A' ≤ c && c ≤ 'Z')

/-- `[A-Za-z0-9+.\-]`. -/
def schemeChar (c : Char) : Bool := isLetter c || c.isDigit || c ∈ ['+', '.', '-']

/-- The quotes and brackets that end a URL in a text, but not the value of a parameter. -/
def breakers : List Char := ['\'', '(', ')', '\x7b', '\x7d']

/-- `[^\s'"<>(){}]`. -/
def urlChar (c : Char) : Bool := !(c ∈ ['"', '<', '>'] || c ∈ breakers || Py.isSpace c)

/-- What follows `://` in a text that begins so. -/
def afterMarks : List Char → Option (List Char)
  | ':' :: '/' :: '/' :: cs => some cs
  | _ => none

/-- `_URL_IN_TEXT`: the scheme and what stands after `://`. -/
def urlInText (cs : List Char) : Option (List Char × List Char) :=
  let scheme := cs.takeWhile schemeChar
  match afterMarks (cs.dropWhile schemeChar) with
  | some rest =>
    let found := rest.takeWhile urlChar
    if cs.head?.any isLetter ∧ found ≠ [] then some (scheme, found) else none
  | none => none

/-- `[^=&#\s'"<>]`. -/
def nameChar (c : Char) : Bool := !(c ∈ ['=', '&', '#', '\'', '"', '<', '>'] || Py.isSpace c)

/-- `[^&#\s"<>]`. -/
def valueChar (c : Char) : Bool := !(c ∈ ['&', '#', '"', '<', '>'] || Py.isSpace c)

/-- `_QUERY_PARAM`: what begins it, its name and its value. -/
def queryParam : List Char → Option (Char × List Char × List Char)
  | [] => none
  | sep :: cs =>
    match cs.dropWhile nameChar with
    | '=' :: rest =>
      if (sep = '?' ∨ sep = '&') ∧ cs.takeWhile nameChar ≠ [] then
        some (sep, cs.takeWhile nameChar, rest.takeWhile valueChar)
      else none
    | _ => none

end Patterns

section Urls

def punctuation : List Char := ['.', ',', ';', ':', '!']

/-- `_split_trailing`. -/
def splitTrailing (token : List Char) : List Char × List Char :=
  (token.rdropWhile (· ∈ punctuation), token.rtakeWhile (· ∈ punctuation))

def closers : List Char := ['.', ',', ';', ':', '!', '\'', ')', ']', '\x7d']

/-- `_split_value_trailing`. -/
def splitValueTrailing (token : List Char) : List Char × List Char :=
  (token.rdropWhile (· ∈ closers), token.rtakeWhile (· ∈ closers))

def marks : List Char := [':', '/', '/']

/-- `_conservative_redact`. -/
def conservativeRedact (url : List Char) : List Char :=
  let url := Py.sub userinfo (url.takeWhile (· ≠ '#'))
  if '?' ∈ url then url.takeWhile (· ≠ '?') ++ '?' :: mask else url

/-- `parts.hostname` and the text of the port, of a netloc. -/
def hostinfo (netloc : List Char) : List Char × List Char :=
  let hostinfo := netloc.rtakeWhile (· ≠ '@')
  if '[' ∈ hostinfo then
    let bracketed := (hostinfo.dropWhile (· ≠ '[')).drop 1
    let after := (bracketed.dropWhile (· ≠ ']')).drop 1
    (bracketed.takeWhile (· ≠ ']'), (after.dropWhile (· ≠ ':')).drop 1)
  else (hostinfo.takeWhile (· ≠ ':'), (hostinfo.dropWhile (· ≠ ':')).drop 1)

/-- `parts.hostname or ""`: the zone of an address is kept as written. -/
def hostname (host : List Char) : List Char :=
  u.lower (host.takeWhile (· ≠ '%')) ++ host.dropWhile (· ≠ '%')

/-- `parts.port`, which raises for what is not a port; `int` reads at most 4300 digits. -/
def port (text : List Char) : Option (Option Nat) :=
  if text = [] then some none
  else if text.all Char.isDigit ∧ text.length ≤ 4300 then
    let n := text.foldl (fun n c => 10 * n + (c.toNat - 48)) 0
    if n ≤ 65535 then some (some n) else none
  else none

/-- The netloc that `_redact_url` writes; `none` where a `ValueError` is raised. -/
def redactNetloc (netloc : List Char) : Option (List Char) :=
  if u.rejects netloc then none
  else
    let host := hostname u (hostinfo netloc).1
    let host := if ':' ∈ host then '[' :: host ++ [']'] else host
    (port (hostinfo netloc).2).map fun
      | some n => host ++ ':' :: (toString n).toList
      | none => host

/-- A field of a query, decoded. -/
def field (text : List Char) : List Char × List Char :=
  (Percent.unquotePlus (Py.partition '=' text).1, Percent.unquotePlus (Py.partition '=' text).2)

/-- `parse_qsl` with `keep_blank_values`. -/
def parseQsl (query : List Char) : List (List Char × List Char) :=
  ((query.splitOn '&').filter (· ≠ [])).map field

/-- `urlencode` with `safe="*"`. -/
def urlencode (query : List (List Char × List Char)) : List Char :=
  ['&'].intercalate (query.map fun kv => Percent.quotePlus ['*'] kv.1 ++ '=' ::
    Percent.quotePlus ['*'] kv.2)

/-- `uses_netloc` of `urllib.parse`. -/
def usesNetloc : List (List Char) :=
  ["ftp", "http", "gopher", "nntp", "telnet", "imap", "wais", "file", "mms", "https", "shttp",
    "snews", "prospero", "rtsp", "rtsps", "rtspu", "rsync", "svn", "svn+ssh", "sftp", "nfs", "git",
    "git+ssh", "ws", "wss", "itms-services"].map String.toList

/-- `urlunsplit`, without a fragment. -/
def urlunsplit (scheme netloc path query : List Char) : List Char :=
  let url :=
    if netloc ≠ [] then
      '/' :: '/' :: netloc ++ (if path ≠ [] ∧ path.head? ≠ some '/' then '/' :: path else path)
    else if path.take 2 = ['/', '/'] then '/' :: '/' :: path
    else if scheme ∈ usesNetloc ∧ (path = [] ∨ path.head? = some '/') then '/' :: '/' :: path
    else path
  scheme ++ ':' :: url ++ (if query ≠ [] then '?' :: query else [])

end Urls

section Texts

variable (nested : List Char → List Char)

/-- A field as `_redact_url` writes it. -/
def shown (kv : List Char × List Char) : List Char × List Char :=
  (kv.1, if isSensitive u kv.1 then mask else nested kv.2)

/-- `_redact_url` of a URL as the pattern finds it: its scheme and what stands after `://`. -/
def redactUrl (scheme rest : List Char) : List Char :=
  let netloc := rest.takeWhile (· ∉ ['/', '?', '#'])
  let target := (rest.dropWhile (· ∉ ['/', '?', '#'])).takeWhile (· ≠ '#')
  match redactNetloc u netloc with
  | some host =>
    let query := (parseQsl (Py.partition '?' target).2).map (shown u nested)
    urlunsplit (scheme.map Char.toLower) host (Py.partition '?' target).1 (urlencode query)
  | none => conservativeRedact (scheme ++ marks ++ rest)

/-- `_URL_IN_TEXT` with `url`: what stands for a URL in the text. The punctuation after it never
reaches back to its scheme. -/
def url : Py.Pattern Char := fun _ cs =>
  (urlInText cs).map fun (scheme, found) =>
    (scheme.length + 3 + found.length,
      redactUrl u nested scheme (splitTrailing found).1 ++ (splitTrailing found).2)

/-- `param`: what stands for a query parameter, given what begins it, its name and its value. -/
def written (sep : Char) (name raw : List Char) : List Char :=
  let (value, trail) := splitValueTrailing raw
  let decoded := Percent.unquotePlus value
  if value ≠ [] ∧ (isSensitiveRaw u name ∨ nested decoded ≠ decoded) then sep :: name ++
    '=' :: mask ++ trail
  else sep :: name ++ '=' :: raw

/-- `_QUERY_PARAM` with `param`. -/
def param : Py.Pattern Char := fun _ cs =>
  (queryParam cs).map fun (sep, name, raw) => (name.length + 2 + raw.length,
    written u nested sep name raw)

/-- `_redact_text`, with the treatment of a decoded value. -/
def redactWith (text : List Char) : List Char :=
  Py.sub (param u nested) (Py.sub (url u nested) (Py.sub userinfo text))

end Texts

/-- `_nested`, with how many levels are left. -/
def nested : Nat → List Char → List Char
  | 0, decoded => if decoded.any (· ∈ ['=', '@', '%']) then mask else decoded
  | left + 1, decoded => redactWith u (nested left) decoded

/-- `_MAX_NESTING`. -/
def maxNesting : Nat := 1

/-- `redact_urls_in_text`. -/
def redactUrlsInText (text : List Char) : List Char := redactWith u (nested u maxNesting) text

end Redaction
end InferenceEngine
