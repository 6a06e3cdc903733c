import ConfigLoader.Text

/-! # Kinds of fault

Each kind has a name, which messages show, and a broader kind that it belongs to.
-/
namespace ConfigLoader.Fault

inductive Kind
  | baseException
  | baseExceptionGroup
  | generatorExit
  | keyboardInterrupt
  | systemExit
  | thrownValue
  | exception
  | arithmeticError
  | floatingPointError
  | overflowError
  | zeroDivisionError
  | assertionError
  | attributeError
  | bufferError
  | eofError
  | exceptionGroup
  | importError
  | moduleNotFoundError
  | lookupError
  | indexError
  | keyError
  | memoryError
  | nameError
  | unboundLocalError
  | osError
  | blockingIOError
  | childProcessError
  | connectionError
  | brokenPipeError
  | connectionAbortedError
  | connectionRefusedError
  | connectionResetError
  | fileExistsError
  | fileNotFoundError
  | interruptedError
  | isADirectoryError
  | notADirectoryError
  | permissionError
  | processLookupError
  | timeoutError
  | referenceError
  | runtimeError
  | notImplementedError
  | recursionError
  | compilerStartupError
  | stopAsyncIteration
  | stopIteration
  | syntaxError
  | indentationError
  | tabError
  | systemError
  | typeError
  | valueError
  | unicodeError
  | unicodeDecodeError
  | unicodeEncodeError
  | unicodeTranslateError
  | jsonDecodeError
  | validationError
  | unsupportedExtensionError
  | timeoutExpired
  | readerError
  | scannerError
  | parserError
  | composerError
  | constructorError
  | yamlError
  | compileError
  | diagnosticsError
  | executionError
  | warning
  | bytesWarning
  | deprecationWarning
  | encodingWarning
  | futureWarning
  | importWarning
  | pendingDeprecationWarning
  | resourceWarning
  | runtimeWarning
  | syntaxWarning
  | unicodeWarning
  | userWarning
  deriving DecidableEq, Repr

namespace Kind

def all : List Kind :=
  [.baseException, .baseExceptionGroup, .generatorExit, .keyboardInterrupt, .systemExit,
    .thrownValue, .exception, .arithmeticError, .floatingPointError, .overflowError,
    .zeroDivisionError, .assertionError, .attributeError, .bufferError, .eofError,
    .exceptionGroup, .importError, .moduleNotFoundError, .lookupError, .indexError, .keyError,
    .memoryError, .nameError, .unboundLocalError, .osError, .blockingIOError,
    .childProcessError, .connectionError, .brokenPipeError, .connectionAbortedError,
    .connectionRefusedError, .connectionResetError, .fileExistsError, .fileNotFoundError,
    .interruptedError, .isADirectoryError, .notADirectoryError, .permissionError,
    .processLookupError, .timeoutError, .referenceError, .runtimeError, .notImplementedError,
    .recursionError, .compilerStartupError, .stopAsyncIteration, .stopIteration, .syntaxError,
    .indentationError, .tabError, .systemError, .typeError, .valueError, .unicodeError,
    .unicodeDecodeError, .unicodeEncodeError, .unicodeTranslateError, .jsonDecodeError,
    .validationError, .unsupportedExtensionError, .timeoutExpired, .readerError, .scannerError,
    .parserError, .composerError, .constructorError, .yamlError, .compileError,
    .diagnosticsError, .executionError, .warning, .bytesWarning, .deprecationWarning,
    .encodingWarning, .futureWarning, .importWarning, .pendingDeprecationWarning,
    .resourceWarning, .runtimeWarning, .syntaxWarning, .unicodeWarning, .userWarning]

def name : Kind → String
  | .baseException => "BaseException"
  | .baseExceptionGroup => "BaseExceptionGroup"
  | .generatorExit => "GeneratorExit"
  | .keyboardInterrupt => "KeyboardInterrupt"
  | .systemExit => "SystemExit"
  | .thrownValue => "ThrownValue"
  | .exception => "Exception"
  | .arithmeticError => "ArithmeticError"
  | .floatingPointError => "FloatingPointError"
  | .overflowError => "OverflowError"
  | .zeroDivisionError => "ZeroDivisionError"
  | .assertionError => "AssertionError"
  | .attributeError => "AttributeError"
  | .bufferError => "BufferError"
  | .eofError => "EOFError"
  | .exceptionGroup => "ExceptionGroup"
  | .importError => "ImportError"
  | .moduleNotFoundError => "ModuleNotFoundError"
  | .lookupError => "LookupError"
  | .indexError => "IndexError"
  | .keyError => "KeyError"
  | .memoryError => "MemoryError"
  | .nameError => "NameError"
  | .unboundLocalError => "UnboundLocalError"
  | .osError => "OSError"
  | .blockingIOError => "BlockingIOError"
  | .childProcessError => "ChildProcessError"
  | .connectionError => "ConnectionError"
  | .brokenPipeError => "BrokenPipeError"
  | .connectionAbortedError => "ConnectionAbortedError"
  | .connectionRefusedError => "ConnectionRefusedError"
  | .connectionResetError => "ConnectionResetError"
  | .fileExistsError => "FileExistsError"
  | .fileNotFoundError => "FileNotFoundError"
  | .interruptedError => "InterruptedError"
  | .isADirectoryError => "IsADirectoryError"
  | .notADirectoryError => "NotADirectoryError"
  | .permissionError => "PermissionError"
  | .processLookupError => "ProcessLookupError"
  | .timeoutError => "TimeoutError"
  | .referenceError => "ReferenceError"
  | .runtimeError => "RuntimeError"
  | .notImplementedError => "NotImplementedError"
  | .recursionError => "RecursionError"
  | .compilerStartupError => "CompilerStartupError"
  | .stopAsyncIteration => "StopAsyncIteration"
  | .stopIteration => "StopIteration"
  | .syntaxError => "SyntaxError"
  | .indentationError => "IndentationError"
  | .tabError => "TabError"
  | .systemError => "SystemError"
  | .typeError => "TypeError"
  | .valueError => "ValueError"
  | .unicodeError => "UnicodeError"
  | .unicodeDecodeError => "UnicodeDecodeError"
  | .unicodeEncodeError => "UnicodeEncodeError"
  | .unicodeTranslateError => "UnicodeTranslateError"
  | .jsonDecodeError => "JSONDecodeError"
  | .validationError => "ValidationError"
  | .unsupportedExtensionError => "UnsupportedExtensionError"
  | .timeoutExpired => "TimeoutExpired"
  | .readerError => "ReaderError"
  | .scannerError => "ScannerError"
  | .parserError => "ParserError"
  | .composerError => "ComposerError"
  | .constructorError => "ConstructorError"
  | .yamlError => "YAMLError"
  | .compileError => "TypeScriptCompileError"
  | .diagnosticsError => "TypeScriptDiagnosticsError"
  | .executionError => "ModuleExecutionError"
  | .warning => "Warning"
  | .bytesWarning => "BytesWarning"
  | .deprecationWarning => "DeprecationWarning"
  | .encodingWarning => "EncodingWarning"
  | .futureWarning => "FutureWarning"
  | .importWarning => "ImportWarning"
  | .pendingDeprecationWarning => "PendingDeprecationWarning"
  | .resourceWarning => "ResourceWarning"
  | .runtimeWarning => "RuntimeWarning"
  | .syntaxWarning => "SyntaxWarning"
  | .unicodeWarning => "UnicodeWarning"
  | .userWarning => "UserWarning"

def broader : Kind → Option Kind
  | .baseException => none
  | .baseExceptionGroup => some .baseException
  | .generatorExit => some .baseException
  | .keyboardInterrupt => some .baseException
  | .systemExit => some .baseException
  | .thrownValue => some .baseException
  | .exception => some .baseException
  | .arithmeticError => some .exception
  | .floatingPointError => some .arithmeticError
  | .overflowError => some .arithmeticError
  | .zeroDivisionError => some .arithmeticError
  | .assertionError => some .exception
  | .attributeError => some .exception
  | .bufferError => some .exception
  | .eofError => some .exception
  | .exceptionGroup => some .exception
  | .importError => some .exception
  | .moduleNotFoundError => some .importError
  | .lookupError => some .exception
  | .indexError => some .lookupError
  | .keyError => some .lookupError
  | .memoryError => some .exception
  | .nameError => some .exception
  | .unboundLocalError => some .nameError
  | .osError => some .exception
  | .blockingIOError => some .osError
  | .childProcessError => some .osError
  | .connectionError => some .osError
  | .brokenPipeError => some .connectionError
  | .connectionAbortedError => some .connectionError
  | .connectionRefusedError => some .connectionError
  | .connectionResetError => some .connectionError
  | .fileExistsError => some .osError
  | .fileNotFoundError => some .osError
  | .interruptedError => some .osError
  | .isADirectoryError => some .osError
  | .notADirectoryError => some .osError
  | .permissionError => some .osError
  | .processLookupError => some .osError
  | .timeoutError => some .osError
  | .referenceError => some .exception
  | .runtimeError => some .exception
  | .notImplementedError => some .runtimeError
  | .recursionError => some .runtimeError
  | .compilerStartupError => some .runtimeError
  | .stopAsyncIteration => some .exception
  | .stopIteration => some .exception
  | .syntaxError => some .exception
  | .indentationError => some .syntaxError
  | .tabError => some .indentationError
  | .systemError => some .exception
  | .typeError => some .exception
  | .valueError => some .exception
  | .unicodeError => some .valueError
  | .unicodeDecodeError => some .unicodeError
  | .unicodeEncodeError => some .unicodeError
  | .unicodeTranslateError => some .unicodeError
  | .jsonDecodeError => some .valueError
  | .validationError => some .valueError
  | .unsupportedExtensionError => some .valueError
  | .timeoutExpired => some .exception
  | .readerError => some .yamlError
  | .scannerError => some .yamlError
  | .parserError => some .yamlError
  | .composerError => some .yamlError
  | .constructorError => some .yamlError
  | .yamlError => some .exception
  | .compileError => some .exception
  | .diagnosticsError => some .exception
  | .executionError => some .exception
  | .warning => some .exception
  | .bytesWarning => some .warning
  | .deprecationWarning => some .warning
  | .encodingWarning => some .warning
  | .futureWarning => some .warning
  | .importWarning => some .warning
  | .pendingDeprecationWarning => some .warning
  | .resourceWarning => some .warning
  | .runtimeWarning => some .warning
  | .syntaxWarning => some .warning
  | .unicodeWarning => some .warning
  | .userWarning => some .warning

/-- Whether a kind is another or belongs to it, within a number of steps. -/
def belongs : Nat → Kind → Kind → Bool
  | 0, k, l => k = l
  | n + 1, k, l => k = l || match k.broader with
    | none => false
    | some b => belongs n b l

/-- Whether `k` is `l` or a kind of `l`; no kind is more than six steps from the broadest. -/
def isA (k l : Kind) : Bool := belongs 6 k l

/-- The kind of a name; system errors have two more names. -/
def ofName? (t : Text) : Option Kind :=
  if t = "IOError" ∨ t = "EnvironmentError" then some .osError
  else all.find? fun k => Text.ofString k.name == t

end Kind
end ConfigLoader.Fault
