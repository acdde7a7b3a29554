import AuthorityKernel.Json.Extract
import AuthorityKernel.Types

/-! The operations of the host's proxy: the line each of them sends and what it takes
from the line that comes back. Nothing here looks at the id of an answer. -/
namespace AuthorityKernel.Proxy
open Library Json

def akProxyENotConnected : Int := -200
def akProxyETimeout : Int := -201
def akProxyEParse : Int := -203
def akProxyERemote : Int := -204

def jsonEscapeByte (byte : UInt8) : Bytes :=
  if byte = 34 then [92,34]
  else if byte = 92 then [92,92]
  else if byte = 10 then ascii "\\n"
  else if byte = 13 then ascii "\\r"
  else if byte = 9 then ascii "\\t"
  else if 32 ≤ byte ∧ byte < 127 then [byte]
  else ascii "\\u00" ++ hexByte byte

def jsonEscapeString (text : Bytes) : Bytes := 34 :: text.flatMap jsonEscapeByte ++ [34]

def plainEscape (letter : UInt8) : Option UInt8 :=
  if letter = 34 then some 34
  else if letter = 92 then some 92
  else if letter = 110 then some 10
  else if letter = 114 then some 13
  else if letter = 116 then some 9
  else if letter = 47 then some 47
  else if letter = 98 then some 8
  else if letter = 102 then some 12
  else none

def asciiEscape (a b c d : UInt8) : Option UInt8 :=
  match hexValue a, hexValue b, hexValue c, hexValue d with
  | some a, some b, some c, some d =>
      let code := ((a.toNat * 16 + b.toNat) * 16 + c.toNat) * 16 + d.toNat
      if code < 128 then some (UInt8.ofNat code) else none
  | _, _, _, _ => none

/-- What is not an escape it knows stays as it is. -/
def jsonUnescapeString : Bytes → Bytes
  | [] => []
  | [byte] => [byte]
  | byte :: next :: rest =>
      if byte = backslashByte then
        match plainEscape next with
        | some plain => plain :: jsonUnescapeString rest
        | none =>
            match rest with
            | a :: b :: c :: d :: after =>
                match if next = 117 then asciiEscape a b c d else none with
                | some char => char :: jsonUnescapeString after
                | none => byte :: jsonUnescapeString (next :: a :: b :: c :: d :: after)
            | rest => byte :: jsonUnescapeString (next :: rest)
      else byte :: jsonUnescapeString (next :: rest)

def base64Chars : Bytes := ascii "ABCDEFGHIJKLMNOPQRSTUVWXYZabcdefghijklmnopqrstuvwxyz0123456789+/"

def base64Char (bits : Nat) : UInt8 := base64Chars.getD (bits % 64) 0

def base64Encode : Bytes → Bytes
  | [] => []
  | [a] => let n := a.toNat * 65536; [base64Char (n / 262144),base64Char (n / 4096),61,61]
  | [a,b] =>
      let n := a.toNat * 65536 + b.toNat * 256
      [base64Char (n / 262144),base64Char (n / 4096),base64Char (n / 64),61]
  | a :: b :: c :: rest =>
      let n := a.toNat * 65536 + b.toNat * 256 + c.toNat
      base64Char (n / 262144) :: base64Char (n / 4096) :: base64Char (n / 64) :: base64Char n :: base64Encode rest

def base64Value (byte : UInt8) : Option UInt32 :=
  if 65 ≤ byte ∧ byte ≤ 90 then some (byte - 65).toUInt32
  else if 97 ≤ byte ∧ byte ≤ 122 then some ((byte - 97).toUInt32 + 26)
  else if 48 ≤ byte ∧ byte ≤ 57 then some ((byte - 48).toUInt32 + 52)
  else if byte = 43 then some 62
  else if byte = 47 then some 63
  else none

/-- Up to the first `=`; other characters are passed over. -/
def base64Loop (accum : UInt32) (bits : Nat) : Bytes → Bytes
  | [] => []
  | byte :: rest =>
      if byte = 61 then []
      else
        match base64Value byte with
        | none => base64Loop accum bits rest
        | some value =>
            let accum := accum <<< 6 ||| value
            if bits + 6 ≥ 8 then (accum >>> UInt32.ofNat (bits - 2)).toUInt8 :: base64Loop accum (bits - 2) rest
            else base64Loop accum (bits + 6) rest

def base64Decode (text : Bytes) : Bytes := base64Loop 0 0 text

/-- Null arguments are refused before anything else; the callers pass none. -/
inductive ProxyRequest
  | httpRequest (method url : CString) (headers body : Option Bytes)
  | fsRead (path : CString)
  | fsWrite (path : CString) (content : Bytes)
  | fsStat (path : CString)
  | fsList (path : CString)
  | llmComplete (model : Option CString) (prompt : CString) (maxTokens : UInt64)
  | llmChat (model : Option CString) (messages : Bytes) (maxTokens : UInt64)
  | tcpConnect (host : CString) (port : UInt16)
  | tcpSend (connId : UInt64) (data : Bytes)
  | tcpRecv (connId : UInt64) (maxlen : UInt64)
  | tcpClose (connId : UInt64)
deriving DecidableEq

def optionalField (name : String) (text : Bytes) : Bytes := if text = [] then [] else ascii name ++ text

def modelField (model : Option CString) : Bytes :=
  match model with
  | none => []
  | some model => if model.1 = [] then [] else ascii ",\"model\":" ++ jsonEscapeString model.1

def maxTokensField (maxTokens : UInt64) : Bytes :=
  if maxTokens > 0 then ascii ",\"max_tokens\":" ++ decimalNat maxTokens.toNat else []

def requestFields : ProxyRequest → Bytes
  | .httpRequest method url headers body =>
      ascii "\",\"op\":\"http_request\",\"method\":\"" ++ method.1 ++ ascii "\",\"url\":" ++ jsonEscapeString url.1 ++
        optionalField ",\"headers\":" (headers.getD []) ++
        (if body.getD [] = [] then [] else ascii ",\"body\":" ++ jsonEscapeString (body.getD []))
  | .fsRead path => ascii "\",\"op\":\"fs_read\",\"path\":" ++ jsonEscapeString path.1
  | .fsWrite path content =>
      ascii "\",\"op\":\"fs_write\",\"path\":" ++ jsonEscapeString path.1 ++ ascii ",\"data\":" ++ jsonEscapeString content
  | .fsStat path => ascii "\",\"op\":\"fs_stat\",\"path\":" ++ jsonEscapeString path.1
  | .fsList path => ascii "\",\"op\":\"fs_list\",\"path\":" ++ jsonEscapeString path.1
  | .llmComplete model prompt maxTokens =>
      ascii "\",\"op\":\"llm_complete\"" ++ modelField model ++ ascii ",\"prompt\":" ++ jsonEscapeString prompt.1 ++
        maxTokensField maxTokens
  | .llmChat model messages maxTokens =>
      ascii "\",\"op\":\"llm_chat\"" ++ modelField model ++ ascii ",\"messages\":" ++ messages ++ maxTokensField maxTokens
  | .tcpConnect host port =>
      ascii "\",\"op\":\"tcp_connect\",\"host\":" ++ jsonEscapeString host.1 ++ ascii ",\"port\":" ++ decimalNat port.toNat
  | .tcpSend connId data =>
      ascii "\",\"op\":\"tcp_send\",\"conn_id\":" ++ decimalNat connId.toNat ++ ascii ",\"data\":\"" ++ base64Encode data ++
        ascii "\""
  | .tcpRecv connId maxlen =>
      ascii "\",\"op\":\"tcp_recv\",\"conn_id\":" ++ decimalNat connId.toNat ++ ascii ",\"maxlen\":" ++
        decimalNat maxlen.toNat
  | .tcpClose connId => ascii "\",\"op\":\"tcp_close\",\"conn_id\":" ++ decimalNat connId.toNat

def genRequestId (id : UInt64) : Bytes := hexWord 16 id.toNat

def requestText (id : UInt64) (request : ProxyRequest) : Bytes :=
  ascii "\x7b\"id\":\"" ++ genRequestId id ++ requestFields request ++ ascii "\x7d"

/-! ### What is read from an answer -/

def jsonGetString (key : String) (outLen : Nat) (json : Bytes) : Option CString :=
  (akJsonExtractString (some json) key outLen).map .ofBuffer

def digitsValue (text : Bytes) : Int64 :=
  (text.takeWhile isDigit).foldl (fun value byte => value * 10 + (byte - 48).toUInt64.toInt64) 0

def jsonGetNumber (key : String) (json : Bytes) : Option Int64 :=
  match valueOf (ascii key) json with
  | none => none
  | some [] => none
  | some (45 :: digits) => some (-digitsValue digits)
  | some digits => some (digitsValue digits)

def jsonGetBool (key : String) (json : Bytes) : Option Bool :=
  match valueOf (ascii key) json with
  | none => none
  | some value =>
      if (ascii "true").isPrefixOf value then some true
      else if (ascii "false").isPrefixOf value then some false
      else none

/-- A bracketed value from behind its first bracket on. A string that does not end takes
one byte from behind the text. -/
def bracketText (behind opening closing : UInt8) (depth : Nat) (inString : Bool) : Bytes → Bytes
  | [] => if inString then [behind] else []
  | byte :: rest =>
      if inString then
        if byte = quoteByte then byte :: bracketText behind opening closing depth false rest
        else if byte = backslashByte then
          match rest with
          | [] => [byte,behind]
          | next :: after => byte :: next :: bracketText behind opening closing depth true after
        else byte :: bracketText behind opening closing depth true rest
      else if byte = quoteByte then byte :: bracketText behind opening closing depth true rest
      else if byte = opening then byte :: bracketText behind opening closing (depth + 1) false rest
      else if byte = closing then
        if depth = 1 then [byte] else byte :: bracketText behind opening closing (depth - 1) false rest
      else byte :: bracketText behind opening closing depth false rest

def endsScalar (byte : UInt8) : Bool :=
  byte == 44 || byte == 125 || byte == 93 || byte == 32 || byte == 9 || byte == 10

/-- The text of a member's value; `behind` is the byte in memory behind the text. -/
def jsonGetValue (behind : UInt8) (key : String) (json : Bytes) : Option Bytes :=
  match valueOf (ascii key) json with
  | none => none
  | some [] => none
  | some (byte :: rest) =>
      if byte = quoteByte then
        let body := stringBody rest
        some (byte :: body ++ [(rest.drop body.length).headD behind])
      else if byte = 123 then some (byte :: bracketText behind 123 125 1 false rest)
      else if byte = 91 then some (byte :: bracketText behind 91 93 1 false rest)
      else some ((byte :: rest).takeWhile fun byte => !endsScalar byte)

def isQuoted (value : Bytes) : Bool :=
  2 ≤ value.length && value.head? == some quoteByte && value.getLast? == some quoteByte

def unquoted (value : Bytes) : Bytes := if isQuoted value then value.tail.dropLast else value

structure HttpResponse where
  status : Int32
  headers : Option Bytes
  body : Option Bytes
deriving DecidableEq

structure FileInfo where
  name : CString
  size : UInt64
  mode : CString
  isDir : Bool
  modTimeMs : UInt64
deriving DecidableEq

structure LlmResponse where
  content : Option Bytes
  model : CString
  finishReason : CString
  promptTokens : UInt64
  completionTokens : UInt64
  totalTokens : UInt64
deriving DecidableEq

structure TcpConnection where
  connId : UInt64
  localAddr : CString
  remoteAddr : CString
deriving DecidableEq

def textField (key : String) (size : Nat) (json : Bytes) : CString := (jsonGetString key size json).getD .empty

def numberField (key : String) (json : Bytes) : UInt64 := ((jsonGetNumber key json).getD 0).toUInt64

def fileInfo (json : Bytes) : FileInfo :=
  ⟨textField "name" 256 json,numberField "size" json,textField "mode" 16 json,(jsonGetBool "is_dir" json).getD false,
    numberField "mod_time" json⟩

/-- The objects of an array text. The depth may fall below zero at a bracket too many. -/
def entryObjects (depth : Int) (inString : Bool) (object : Bytes) : Bytes → List Bytes
  | [] => []
  | byte :: rest =>
      let object := object ++ [byte]
      if inString then
        if byte = quoteByte then entryObjects depth false object rest
        else if byte = backslashByte then
          match rest with
          | [] => []
          | next :: after => entryObjects depth true (object ++ [next]) after
        else entryObjects depth true object rest
      else if byte = quoteByte then entryObjects depth true object rest
      else if byte = 123 then entryObjects (depth + 1) false (if depth = 0 then [byte] else object) rest
      else if byte = 125 then
        if depth = 1 then object :: entryObjects 0 false [] rest else entryObjects (depth - 1) false object rest
      else entryObjects depth false object rest

def entryCount (depth : Int) (inString : Bool) : Bytes → Nat
  | [] => 0
  | byte :: rest =>
      if inString then
        if byte = quoteByte then entryCount depth false rest
        else if byte = backslashByte then
          match rest with
          | [] => 0
          | _ :: after => entryCount depth true after
        else entryCount depth true rest
      else if byte = quoteByte then entryCount depth true rest
      else if byte = 123 then (if depth = 0 then 1 else 0) + entryCount (depth + 1) false rest
      else if byte = 125 then entryCount (depth - 1) false rest
      else entryCount depth false rest

def isArrayStart (byte : UInt8) : Bool := byte == 91 || byte == 32 || byte == 9 || byte == 10

inductive Reply
  | http (response : HttpResponse)
  | content (content : Option Bytes)
  | written (count : Int64)
  | info (info : FileInfo)
  | entries (entries : List FileInfo)
  | llm (response : LlmResponse)
  | connection (connection : TcpConnection)
  | received (data : Bytes)
  | closed
deriving DecidableEq

/-- Memory while an answer is read: the bytes behind the answer and behind its data, and
the table of directory entries. -/
structure ReplyEnv where
  behind : UInt8
  behindData : UInt8
  entriesAlloc : Bool

def httpReply (env : ReplyEnv) (data : Option Bytes) : Except Int Reply :=
  match data with
  | none => .error akProxyEParse
  | some data =>
      .ok (.http ⟨((jsonGetNumber "status" data).getD 0).toInt32,jsonGetValue env.behindData "headers" data,
        (jsonGetValue env.behindData "body" data).map fun body =>
          if isQuoted body then jsonUnescapeString (unquoted body) else body⟩)

def contentReply (env : ReplyEnv) (data : Option Bytes) : Option Bytes :=
  data.bind fun data => (jsonGetValue env.behindData "content" data).map unquoted

/-- A count below zero is an error to the caller. -/
def countReply (count : Int64) : Except Int Reply := if count < 0 then .error count.toInt else .ok (.written count)

def listReply (env : ReplyEnv) (data : Option Bytes) : Except Int Reply :=
  match data.bind (jsonGetValue env.behindData "entries") with
  | none => .ok (.entries [])
  | some entries =>
      let entries := entries.dropWhile isArrayStart
      let count := entryCount 0 false entries
      if count = 0 then .ok (.entries [])
      else if !env.entriesAlloc then .error (-eNomem)
      else .ok (.entries (((entryObjects 0 false [] entries).take count).map fileInfo))

/-- The three counts share a variable, so that a missing one repeats the one before. -/
def llmReply (env : ReplyEnv) (data : Option Bytes) : LlmResponse :=
  match data with
  | none => ⟨none,.empty,.empty,0,0,0⟩
  | some data =>
      let response : LlmResponse :=
        ⟨contentReply env (some data),textField "model" 64 data,textField "finish_reason" 32 data,0,0,0⟩
      match jsonGetValue env.behindData "usage" data with
      | none => response
      | some usage =>
          let prompt := (jsonGetNumber "prompt_tokens" usage).getD 0
          let completion := (jsonGetNumber "completion_tokens" usage).getD prompt
          let total := (jsonGetNumber "total_tokens" usage).getD completion
          { response with
            promptTokens := prompt.toUInt64
            completionTokens := completion.toUInt64
            totalTokens := total.toUInt64 }

/-- The quotes around the received text are cut without looking at the second one. -/
def receivedData (env : ReplyEnv) (maxlen : UInt64) (data : Option Bytes) : Bytes :=
  match data.bind (jsonGetValue env.behindData "data") with
  | none => []
  | some text =>
      let text := if 2 ≤ text.length ∧ text.head? = some quoteByte then text.tail.dropLast else text
      (base64Decode text).take maxlen.toNat

def replyOf (env : ReplyEnv) (data : Option Bytes) : ProxyRequest → Except Int Reply
  | .httpRequest _ _ _ _ => httpReply env data
  | .fsRead _ => .ok (.content (contentReply env data))
  | .fsWrite _ _ => countReply ((data.bind (jsonGetNumber "bytes_written")).getD 0)
  | .fsStat _ => .ok (.info ((data.map fileInfo).getD (fileInfo [])))
  | .fsList _ => listReply env data
  | .llmComplete _ _ _ => .ok (.llm (llmReply env data))
  | .llmChat _ _ _ => .ok (.llm (llmReply env data))
  | .tcpConnect _ _ =>
      .ok (.connection
        ⟨((data.map (numberField "conn_id")).getD 0),(data.map (textField "local_addr" 64)).getD .empty,
          (data.map (textField "remote_addr" 64)).getD .empty⟩)
  | .tcpSend _ sent =>
      countReply ((data.bind (jsonGetNumber "bytes_sent")).getD (UInt64.ofNat sent.length).toInt64)
  | .tcpRecv _ maxlen => .ok (.received (receivedData env maxlen data))
  | .tcpClose _ => .ok .closed

def readReply (env : ReplyEnv) (request : ProxyRequest) (line : Bytes) : Except Int Reply :=
  if jsonGetBool "ok" line = some true then replyOf env (jsonGetValue env.behind "data" line) request
  else .error akProxyERemote

end AuthorityKernel.Proxy
