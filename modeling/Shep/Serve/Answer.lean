import Shep.Common.FileTree
import Shep.Serve.Conditional

/-!
# Serve — answers

`serve/worker/answer.rs` with what it calls in `auth.rs`, `mime.rs` and
`fs.rs`: what one request gets of a file tree. A file operation keeps the
links the kernel went through for it.
-/

namespace Shep

namespace Serve

open FileTree (Tree Name)

/-! ## Credentials -/

/-- `MAX_HEADER_LEN` -/
def MAX_HEADER_LEN : Nat := 1024

/-- `Credentials`, with `credentials_match`, by which `ring` compares two. -/
structure Credentials where
  expected : Text
  credentials_match : Text → Text → Bool

/-- The six bits a base64 letter stands for. -/
def sextet (byte : UInt8) : Option UInt8 :=
  if 0x41 ≤ byte ∧ byte ≤ 0x5A then some (byte - 0x41)
  else if 0x61 ≤ byte ∧ byte ≤ 0x7A then some (byte - 0x61 + 26)
  else if 0x30 ≤ byte ∧ byte ≤ 0x39 then some (byte - 0x30 + 52)
  else if byte = 0x2B then some 62
  else if byte = 0x2F then some 63
  else none

/-- The bytes of a chunk of four letters, the last `pad` of them padding. -/
def decodeChunk (pad : Nat) (chunk : Text) : Option Text :=
  ((chunk.take (4 - pad)).mapM sextet).map fun sextets =>
    let s (i : Nat) : UInt8 := sextets.getD i 0
    [s 0 <<< 2 ||| s 1 >>> 4] ++
      (if pad < 2 then [s 1 <<< 4 ||| s 2 >>> 2] else []) ++
      (if pad < 1 then [s 2 <<< 6 ||| s 3] else [])

/-- The chunks of a base64 text; `pad` is of the last. -/
def decodeChunks (pad : Nat) : Text → Option Text
  | a :: b :: c :: d :: rest =>
    if rest = [] then decodeChunk pad [a, b, c, d]
    else
      match decodeChunk 0 [a, b, c, d], decodeChunks pad rest with
      | some front, some behind => some (front ++ behind)
      | _, _ => none
  | _ => none

/-- `base64_decode` -/
def base64_decode (input : Text) : Option Text :=
  if input = [] ∨ input.length % 4 ≠ 0 then none
  else decodeChunks ((input.reverse.take 2).takeWhile (· == 0x3D)).length input

/-- `satisfies` -/
def Credentials.satisfies (creds : Credentials) (header : Option Text) : Bool :=
  match header.bind (stripPrefix (ascii "Basic ")) with
  | none => false
  | some encoded =>
    if MAX_HEADER_LEN < encoded.length then false
    else match base64_decode encoded with
      | none => false
      | some presented => creds.credentials_match presented creds.expected

/-! ## Content types -/

/-- `TYPES` -/
def TYPES : List (Text × Text) :=
  [("html", "text/html; charset=utf-8"), ("htm", "text/html; charset=utf-8"),
    ("css", "text/css; charset=utf-8"), ("js", "text/javascript; charset=utf-8"),
    ("mjs", "text/javascript; charset=utf-8"), ("json", "application/json"),
    ("map", "application/json"), ("txt", "text/plain; charset=utf-8"),
    ("md", "text/markdown; charset=utf-8"), ("xml", "application/xml"),
    ("svg", "image/svg+xml"), ("png", "image/png"), ("jpg", "image/jpeg"), ("jpeg", "image/jpeg"),
    ("gif", "image/gif"), ("webp", "image/webp"), ("avif", "image/avif"), ("ico", "image/x-icon"),
    ("woff", "font/woff"), ("woff2", "font/woff2"), ("ttf", "font/ttf"), ("otf", "font/otf"),
    ("wasm", "application/wasm"), ("pdf", "application/pdf"), ("zip", "application/zip"),
    ("mp4", "video/mp4"), ("webm", "video/webm")].map fun type => (ascii type.1, ascii type.2)

/-- `FALLBACK` -/
def FALLBACK : Text := ascii "application/octet-stream"

/-- An ASCII letter in lower case. -/
def lowerByte (byte : UInt8) : UInt8 := if 0x41 ≤ byte ∧ byte ≤ 0x5A then byte + 0x20 else byte

/-- `content_type`: the extension is what stands behind the last dot. -/
def content_type (path : Text) : Text :=
  if path.contains dot then
    let extension := (path.reverse.takeWhile (· != dot)).reverse
    ((TYPES.find? fun type => type.1.map lowerByte == extension.map lowerByte).map Prod.snd).getD
      FALLBACK
  else FALLBACK

/-! ## The file system -/

/-- A regular file: its bytes, and the whole seconds of its modification. -/
structure File where
  content : Text
  modified : Option Int
  bounded : content.length < u64

/-- What was found, and the links that were gone through for it. -/
structure Seen (ι α : Type) where
  links : List ι
  value : α

instance {ι : Type} : Monad (Seen ι) where
  pure a := ⟨[], a⟩
  bind a f := ⟨a.links ++ (f a.value).links, (f a.value).value⟩

variable {ι : Type} (tree : Tree ι File)

/-- `symlink_metadata` -/
def symlink_metadata (path : List Name) : Seen ι (Option ι) :=
  ⟨(tree.resolve path.dropLast).met, (tree.lstat path).toOption⟩

/-- `metadata` -/
def metadata (path : List Name) : Seen ι (Option ι) :=
  ⟨(tree.resolve path).met, (tree.resolve path).outcome.toOption⟩

/-- `canonicalize` -/
def canonicalize (path : List Name) : Seen ι (Option (List Name)) :=
  ⟨(tree.resolve path).met, (tree.realpath path).toOption.map Prod.fst⟩

/-- `read_dir` -/
def read_dir (path : List Name) : Seen ι (Option (List (Name × ι))) :=
  ⟨(tree.resolve path).met, (tree.resolve path).outcome.toOption.bind fun dir =>
    (tree.dir? dir).map Prod.snd⟩

/-- `open_regular`: the last component is not followed. -/
def open_regular (path : List Name) : Seen ι (Option (ι × File)) :=
  ⟨(tree.resolve path.dropLast).met, (tree.lstat path).toOption.bind fun found =>
    match (tree.inode found).kind with
    | .file file => some (found, file)
    | _ => none⟩

/-- Whether a segment is one component, and a name. -/
def isNormal (segment : Text) : Bool :=
  match FileTree.components segment with
  | [part] => part != [slash] && part != FileTree.dot && part != FileTree.dotdot
  | _ => false

/-- The walk of `contain`, from what is joined so far. -/
def joinSegments (follow_symlinks : Bool) :
    List Name → List Text → Seen ι (Option (List Name))
  | joined, [] => pure (some joined)
  | joined, segment :: segments =>
    if isNormal segment then
      let joined := joined ++ FileTree.parts segment
      if follow_symlinks then joinSegments follow_symlinks joined segments
      else do
        match ← symlink_metadata tree joined with
        | none => pure none
        | some found =>
          if (tree.target? found).isSome then pure none
          else joinSegments follow_symlinks joined segments
    else pure none

/-- `contain` -/
def contain (root : List Name) (segments : List Text) (follow_symlinks : Bool) :
    Seen ι (Option (List Name)) := do
  match ← joinSegments tree follow_symlinks root segments with
  | none => pure none
  | some joined =>
    if follow_symlinks then
      match ← canonicalize tree joined with
      | none => pure none
      | some canonical => pure (if root.isPrefixOf canonical then some canonical else none)
    else pure (if root.isPrefixOf joined then some joined else none)

/-! ## Replies -/

/-- `ServeConfig` -/
structure ServeConfig where
  root : List Name
  spa : Bool
  listing : Bool
  hidden : Bool
  auth : Option Credentials
  follow_symlinks : Bool

/-- What the body of an answer is of. -/
inductive Source (ι : Type) where
  | memory
  | nothing
  | file (path : List Name) (inode : ι)
  | listing (path : List Name) (entries : List (Name × ι))

/-- What was written, of what, and the status and byte count for the log. -/
structure Answered (ι : Type) where
  status : Nat
  bytes : Nat
  head : Option Head
  body : Text
  source : Source ι

/-- `reply`: a head and a body in memory. -/
def reply (status : Nat) (type : Text) (body : Text) (headers : List Header)
    (source : Source ι) : Answered ι :=
  match respond ⟨status, type, body.length, headers⟩ with
  | .ok head => ⟨status, body.length, some head, body, source⟩
  | .error _ => ⟨status, body.length, none, [], source⟩

/-- `WWW_AUTHENTICATE` -/
def WWW_AUTHENTICATE : Header := ⟨ascii "WWW-Authenticate", ascii "Basic realm=\"shep\""⟩

/-- `ALLOW` -/
def ALLOW : Header := ⟨ascii "Allow", ascii "GET, HEAD"⟩

/-- The bytes `start..stop` an outcome sends of a file. -/
def Outcome.slice (len : Nat) : Outcome → Option (Nat × Nat)
  | .Whole => some (0, len)
  | .Partial start stop => some (start, wrappingAdd stop 1)
  | .Unsatisfiable | .NotModified => none

/-- The status of an outcome. -/
def Outcome.status : Outcome → Nat
  | .Whole => 200
  | .Partial _ _ => 206
  | .Unsatisfiable => 416
  | .NotModified => 304

/-- The `Content-Range` of an outcome. -/
def Outcome.content_range (len : Nat) : Outcome → Option Text
  | .Partial start stop =>
    some (ascii "bytes " ++ decimal start ++ ascii "-" ++ decimal stop ++ ascii "/" ++ decimal len)
  | .Unsatisfiable => some (ascii "bytes */" ++ decimal len)
  | _ => none

/-- The headers of a file's reply. -/
def fileHeaders (chrono : Chrono) (validators : Validators) (len : Nat) (outcome : Outcome) :
    List Header :=
  [⟨ascii "Accept-Ranges", ascii "bytes"⟩, ⟨ascii "ETag", validators.etag⟩] ++
    (validators.last_modified chrono).toList.map (⟨ascii "Last-Modified", ·⟩) ++
    (outcome.content_range len).toList.map (⟨ascii "Content-Range", ·⟩)

/-- `serve_file` -/
def serve_file (chrono : Chrono) (request : HttpRequest) (type : Text) (path : List Name)
    (inode : ι) (file : File) : Answered ι :=
  let len := file.content.length
  let validators := Validators.new len file.modified
  let outcome := decideOutcome chrono request len validators
  let body := outcome.slice len
  let body_len := body.elim 0 fun (start, stop) => wrappingSub stop start
  let sent := if request.method = ascii "GET" then
      body.elim [] fun (start, stop) => (file.content.drop start).take (wrappingSub stop start)
    else []
  match respond ⟨outcome.status, type, body_len, fileHeaders chrono validators len outcome⟩ with
  | .ok head => ⟨outcome.status, body_len, some head, sent, .file path inode⟩
  | .error _ => ⟨500, 0, none, [], .nothing⟩

/-- The name of a directory's index. -/
def index : Name := ascii "index.html"

/-- Whether a text stands in another: `contains`. -/
def holds (part text : Text) : Bool := text.tails.any part.isPrefixOf

/-- `send_not_found` -/
def send_not_found (chrono : Chrono) (cfg : ServeConfig) (request : HttpRequest) :
    Seen ι (Answered ι) :=
  let absent : Answered ι := reply 404 (ascii "text/plain") (ascii "not found\n") [] .memory
  if cfg.spa ∧ (request.method = ascii "GET" ∨ request.method = ascii "HEAD") ∧
      (request.header "accept").any (holds (ascii "text/html")) then do
    match ← open_regular tree (cfg.root ++ [index]) with
    | some (inode, file) =>
      pure (serve_file chrono request (content_type index) (cfg.root ++ [index]) inode file)
    | none => pure absent
  else pure absent

/-! ## Listings -/

/-- The names of a directory a listing may show. -/
def visible (hidden : Bool) (entries : List (Name × ι)) : List (Name × ι) :=
  entries.filter fun entry => hidden || !isHidden [Utf8.lossy entry.1]

/-- Names in the order of a listing. -/
def sorted (names : List Text) : List Text := names.mergeSort fun a b => (compare a b).isLE

/-- The rows of a listing: directories before files. -/
def rows (entries : List (Name × ι)) : List Entry :=
  let (dirs, files) := entries.partition fun entry => (tree.dir? entry.2).isSome
  (sorted (dirs.map fun entry => Utf8.lossy entry.1)).map (⟨·, true⟩) ++
    (sorted (files.map fun entry => Utf8.lossy entry.1)).map (⟨·, false⟩)

/-- `read_listing`: the entries it shows. -/
def read_listing (path : List Name) (hidden : Bool) : Seen ι (List (Name × ι)) := do
  let entries ← read_dir tree path
  pure (visible hidden (entries.getD []))

/-! ## Answers -/

/-- The redirect to a directory's own path. -/
def redirect (segments : List Text) : Answered ι :=
  match respond ⟨301, ascii "text/plain", 0, [⟨ascii "Location", location segments⟩]⟩ with
  | .ok head => ⟨301, 0, some head, [], .nothing⟩
  | .error _ => reply 500 (ascii "text/plain") (ascii "could not build the redirect\n") [] .memory

/-- The answer for a directory. -/
def answerDirectory (chrono : Chrono) (cfg : ServeConfig) (request : HttpRequest)
    (segments : List Text) (resolved : List Name) : Seen ι (Answered ι) :=
  if (pathOf request.target).getLast? ≠ some slash then pure (redirect segments)
  else do
    match ← open_regular tree (resolved ++ [index]) with
    | some (inode, file) =>
      pure (serve_file chrono request (content_type index) (resolved ++ [index]) inode file)
    | none =>
      if cfg.listing then do
        let entries ← read_listing tree resolved cfg.hidden
        pure (reply 200 (ascii "text/html; charset=utf-8")
          (render (listingPath segments) (rows tree entries)) [] (.listing resolved entries))
      else send_not_found tree chrono cfg request

/-- The answer for a target that resolves. -/
def answerSegments (chrono : Chrono) (cfg : ServeConfig) (request : HttpRequest)
    (segments : List Text) : Seen ι (Answered ι) :=
  if isHidden segments ∧ cfg.hidden = false then send_not_found tree chrono cfg request
  else do
    match ← contain tree cfg.root segments cfg.follow_symlinks with
    | none => send_not_found tree chrono cfg request
    | some resolved =>
      match ← metadata tree resolved with
      | none => send_not_found tree chrono cfg request
      | some found =>
        if (tree.dir? found).isSome then
          answerDirectory tree chrono cfg request segments resolved
        else do
          match ← open_regular tree resolved with
          | none => send_not_found tree chrono cfg request
          | some (inode, file) =>
            pure (serve_file chrono request (content_type (slash :: joined segments)) resolved
              inode file)

/-- `str::parse` of a `u64`: a plus may lead. -/
def parseU64 (text : Text) : Option Nat :=
  match text with
  | 0x2B :: rest => digits rest
  | _ => digits text

/-- Whether a request declares a body. -/
def hasDeclaredBody (request : HttpRequest) : Bool :=
  ((request.header "content-length").bind parseU64).any (0 < ·) ||
    (request.header "transfer-encoding").isSome

/-- Whether a request lacks the credentials it needs. -/
def unauthorised (cfg : ServeConfig) (request : HttpRequest) : Bool :=
  cfg.auth.any fun creds => !creds.satisfies (request.header "authorization")

/-- `answer`: the path to log, and the answer. -/
def answer (chrono : Chrono) (cfg : ServeConfig) (request : HttpRequest) :
    Seen ι (Text × Answered ι) :=
  let plain := fun status body headers =>
    pure (pathOf request.target, reply status (ascii "text/plain") body headers .memory)
  if unauthorised cfg request then plain 401 (ascii "unauthorized\n") [WWW_AUTHENTICATE]
  else if request.method ≠ ascii "GET" ∧ request.method ≠ ascii "HEAD" then
    plain 405 (ascii "method not allowed; this server answers GET and HEAD\n") [ALLOW]
  else if hasDeclaredBody request then
    plain 400 (ascii "this server does not accept a request body\n") []
  else match resolve request.target with
    | .error refusal => plain 400 (ascii refusal.display) []
    | .ok segments => do
      let answered ← answerSegments tree chrono cfg request segments
      pure (slash :: joined segments, answered)

end Serve

end Shep
