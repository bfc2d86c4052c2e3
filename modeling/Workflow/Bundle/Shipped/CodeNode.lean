/-
The module for nodes that run a snippet, as bundles embed it.
-/

namespace Workflow.Bundle.Shipped

/-- The lines of the module for nodes that run a snippet. -/
def codeNodeLines : List String := [
  "\"\"\"",
  "Code node runtime.",
  "",
  "Runs the user's Python snippet as the body of an async function. The",
  "snippet's `return` value becomes the node output; `print` calls are captured",
  "into `logs`.",
  "",
  "Params:",
  "    code: Function body",
  "    inputVariables: Names bound as parameters, read from `props[\"variables\"]`",
  "\"\"\"",
  "",
  "import textwrap",
  "",
  "from flowsmith.nodes.base import NodeExecutionError, Properties, Secrets",
  "",
  "",
  "async def execute(props: Properties, secrets: Secrets):",
  "    code = props.get(\"code\") or \"\"",
  "    names = [str(name) for name in props.get(\"inputVariables\") or []]",
  "    variables = props.get(\"variables\") or \x7b\x7d",
  "    logs = []",
  "",
  "    def capture(*args):",
  "        logs.append(\" \".join(str(arg) for arg in args))",
  "",
  "    source = \"async def __code_node__(\x7bparams\x7d):\\n\x7bbody\x7d\\n\".format(",
  "        params=\", \".join([\"print\", \"secrets\"] + names),",
  "        body=textwrap.indent(code, \"    \") if code.strip() else \"    return None\",",
  "    )",
  "",
  "    namespace = \x7b\x7d",
  "    try:",
  "        exec(compile(source, \"<code-node>\", \"exec\"), namespace)",
  "        output = await namespace[\"__code_node__\"](",
  "            capture, secrets, *[variables.get(name) for name in names]",
  "        )",
  "    except NodeExecutionError:",
  "        raise",
  "    except Exception as e:",
  "        raise NodeExecutionError(f\"Code execution failed: \x7be\x7d\", \"code\") from e",
  "",
  "    return \x7b\"output\": output, \"logs\": logs\x7d"]

end Workflow.Bundle.Shipped
