import GlobalAudit.Catalog.Basic

/-! The globals of the stock interpreters of Lua 5.1 and of Lua 5.2 with 5.1 compatibility. -/
namespace GlobalAudit.Catalog

/-- Functions in a library table. -/
def functionsOf (library : String) (names : List String) : List (String × Shape) :=
  names.map fun name => (Dotted.extend library name, .scalar .function)

def globalFunctions (names : List String) : List (String × Shape) :=
  names.map fun name => (name, .scalar .function)

def baseFunctions : List String :=
  ["assert", "collectgarbage", "dofile", "error", "getmetatable", "ipairs", "load", "loadfile",
   "next", "pairs", "pcall", "print", "rawequal", "rawget", "rawset", "require", "select",
   "setmetatable", "tonumber", "tostring", "type", "xpcall", "module", "unpack", "loadstring"]

def coroutineFunctions : List String :=
  ["create", "resume", "running", "status", "wrap", "yield"]

def inputOutputFunctions : List String :=
  ["close", "flush", "input", "lines", "open", "output", "popen", "read", "tmpfile", "type", "write"]

def mathFunctions : List String :=
  ["abs", "acos", "asin", "atan", "atan2", "ceil", "cos", "cosh", "deg", "exp", "floor", "fmod",
   "frexp", "ldexp", "log", "log10", "max", "min", "modf", "pow", "rad", "random", "randomseed",
   "sin", "sinh", "sqrt", "tan", "tanh"]

def systemFunctions : List String :=
  ["clock", "date", "difftime", "execute", "exit", "getenv", "remove", "rename", "setlocale", "time",
   "tmpname"]

def stringFunctions : List String :=
  ["byte", "char", "dump", "find", "format", "gmatch", "gsub", "len", "lower", "match", "rep",
   "reverse", "sub", "upper"]

def debugFunctions : List String :=
  ["debug", "gethook", "getinfo", "getlocal", "getmetatable", "getregistry", "getupvalue", "sethook",
   "setlocal", "setmetatable", "setupvalue", "traceback"]

def bitFunctions : List String :=
  ["arshift", "band", "bnot", "bor", "btest", "bxor", "extract", "lrotate", "lshift", "replace",
   "rrotate", "rshift"]

/-- What both versions have. -/
def shared : List (String × Shape) :=
  globalFunctions baseFunctions ++ [("_G", .scalar .any)] ++
  functionsOf "coroutine" coroutineFunctions ++ functionsOf "io" inputOutputFunctions ++
  [("io.stdin", .scalar .userdata), ("io.stdout", .scalar .userdata),
   ("io.stderr", .scalar .userdata)] ++
  functionsOf "math" mathFunctions ++ [("math.pi", .scalar .number), ("math.huge", .scalar .number)] ++
  functionsOf "os" systemFunctions ++ functionsOf "string" stringFunctions ++
  functionsOf "debug" debugFunctions ++
  [("package.path", .scalar .string), ("package.cpath", .scalar .string),
   ("package.config", .scalar .string), ("package.loaded", .table []),
   ("package.preload", .table [])]

def lua51Only : List (String × Shape) :=
  globalFunctions ["getfenv", "setfenv", "gcinfo", "newproxy"] ++ [("_VERSION", .scalar .string)] ++
  functionsOf "string" ["gfind"] ++
  functionsOf "table"
    ["concat", "foreach", "foreachi", "getn", "insert", "maxn", "remove", "setn", "sort"] ++
  functionsOf "debug" ["getfenv", "setfenv"] ++ functionsOf "package" ["loadlib", "seeall"] ++
  [("package.loaders", .table [])]

def lua52Only : List (String × Shape) :=
  globalFunctions ["rawlen"] ++ [("_VERSION", .scalar .string)] ++
  functionsOf "table" ["concat", "insert", "pack", "remove", "sort", "unpack", "maxn"] ++
  functionsOf "debug" ["getuservalue", "setuservalue", "upvalueid", "upvaluejoin"] ++
  functionsOf "package" ["loadlib", "searchpath", "seeall"] ++
  [("package.searchers", .table []), ("package.loaders", .table [])] ++
  functionsOf "bit32" bitFunctions

/-- The globals of Lua 5.1. -/
def lua51 : Catalog := empty.extend (shared ++ lua51Only)

/-- The globals of Lua 5.2. -/
def lua52 : Catalog := empty.extend (shared ++ lua52Only)

end GlobalAudit.Catalog
